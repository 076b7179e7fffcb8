import ModelPool.Program.Check
import ModelPool.Program.ImportGraph

/-!
# Program/Load — loading an import set

A load walks the graph of imports, collects what the packages declare, and checks every file of every
package.  A tolerant load gives its program with whatever has been found; a strict one is refused if
anything has.
-/

namespace ModelPool

open Text

namespace Program

/-- What the loaded packages declare. -/
def declarationsIn (loaded : List (String × PackageInfo)) (path : String) : Option Declarations :=
  (loaded.lookup path).map fun info => .ofFiles info.files

/-- What the files of loaded packages can refer to. -/
def surroundings (t : FileTree) (roots : SourceRoots) (loaded : List (String × PackageInfo)) :
    Surroundings :=
  ⟨roots.classify t, declarationsIn loaded⟩

/-- Checks packages in order. -/
def checkPackages (s : Surroundings) : List (String × PackageInfo) → Reported (List Package)
  | [] => pure []
  | (path, info) :: r => do
    let models ← SourceFile.checkAll s path info.files
    let others ← checkPackages s r
    pure (⟨info.name, path, info.dir, info.files, info.imports, models⟩ :: others)

/-- **The program that a walk gives.** -/
def ofWalk (t : FileTree) (roots : SourceRoots) (imports : ImportSet) (mode : LoadMode) (w : Walk) :
    Program :=
  let checked := checkPackages (surroundings t roots w.loaded) w.loaded
  let repeated := w.loaded.flatMap fun (path, info) => redeclarations path info.files
  ⟨mode, imports, checked.value, w.diagnostics ++ repeated ++ checked.found⟩

/-- **Loads an import set.** -/
def load (t : FileTree) (roots : SourceRoots) (imports : ImportSet) (mode : LoadMode) :
    Except LoadError Program :=
  if imports.isEmpty then .error .noPackages
  else
    let w := (ImportGraph.ofTree t roots).walk (imports.paths.map trimmed)
    let p := ofWalk t roots imports mode w
    if mode = .strict ∧ p.hasErrors then .error (.strict p.diagnostics) else .ok p

end Program

end ModelPool
