import ModelPool.Files.Access
import ModelPool.Segments

/-!
# Package/Roots — where packages are looked for

A package is a directory that directly holds source files.  It is found under the source roots by
its import path, the names from a root down to it; of several roots the first one counts that has
such a directory.

* `nodup_steps_ofFramework` — no root is listed twice.
* `isPackageDirectory_of_find?` — what is found under the roots is a directory of a package.
-/

namespace ModelPool

/-! ## Source files -/

/-- The ending of a source file's name, in letters of either case. -/
def sourceExtension : String := "rs"

/-- The path ends as the path of a source file does. -/
def isSourcePath (p : FilePath) : Bool :=
  match p.extension? with
  | some e => e.toLower == sourceExtension
  | none => false

/-- Files whose names begin like this are left out of packages. -/
def isHiddenName (name : String) : Bool :=
  match name.toList with
  | '.' :: _ | '_' :: _ => true
  | _ => false

namespace FileTree

/-- The path leads to a file that belongs to the package around it. -/
def isSourceFile (t : FileTree) (p : FilePath) : Bool :=
  t.isFile p && isSourcePath p && !(p.fileName?.getD "" |> isHiddenName)

/-- **The source files directly inside a directory**, in the order of their names. -/
def sourceFiles (t : FileTree) (dir : FilePath) : Except IoError (List FilePath) :=
  (t.list dir).map (·.filter t.isSourceFile)

/-- **A package's directory** — a directory with at least one source file. -/
def isPackageDirectory (t : FileTree) (dir : FilePath) : Bool :=
  t.isDirectory dir &&
    match t.sourceFiles dir with
    | .ok files => !files.isEmpty
    | .error _ => false

end FileTree

/-! ## Source roots -/

/-- **The source roots**: the framework root, then the others in the order of their search. -/
structure SourceRoots where
  framework : FilePath
  others : List FilePath

namespace SourceRoots

/-- All roots in the order of their search. -/
def all (roots : SourceRoots) : List FilePath := roots.framework :: roots.others

/-- The steps of every root. -/
def steps (roots : SourceRoots) : List (List Component) := roots.all.map FilePath.components

/-- One more root, unless one with the same steps is there already. -/
def addRoot (roots : SourceRoots) (root : FilePath) : SourceRoots :=
  if root.components ∈ roots.steps then roots else { roots with others := roots.others ++ [root] }

/-- One more root from its path; a relative one starts at the framework root. -/
def add (t : FileTree) (roots : SourceRoots) (p : FilePath) : SourceRoots :=
  roots.addRoot (t.normalized (roots.framework.join p))

/-- **The roots of a framework** with further ones. -/
def ofFramework (t : FileTree) (framework : FilePath) (others : List FilePath) : SourceRoots :=
  others.foldl (add t) ⟨t.normalized framework, []⟩

/-- Adding a root keeps the steps free of repetitions. -/
theorem nodup_steps_addRoot {roots : SourceRoots} (root : FilePath) (h : roots.steps.Nodup) :
    (roots.addRoot root).steps.Nodup := by
  unfold addRoot
  split
  · exact h
  · next hn =>
    have hs : (⟨roots.framework, roots.others ++ [root]⟩ : SourceRoots).steps
        = roots.steps ++ [root.components] := by simp [steps, all]
    rw [hs, List.nodup_append]
    refine ⟨h, by simp, ?_⟩
    intro a ha b hb e
    rw [List.mem_singleton] at hb
    subst hb e
    exact hn ha

/-- **No root is listed twice**, not even under two spellings of one path. -/
theorem nodup_steps_ofFramework (t : FileTree) (framework : FilePath) (others : List FilePath) :
    (ofFramework t framework others).steps.Nodup := by
  suffices h : ∀ roots : SourceRoots, roots.steps.Nodup →
      (others.foldl (add t) roots).steps.Nodup from h _ (by simp [steps, all])
  induction others with
  | nil => exact fun _ h => h
  | cons p r ih =>
    intro roots h
    rw [List.foldl_cons]
    exact ih (add t roots p) (nodup_steps_addRoot (t.normalized (roots.framework.join p)) h)

/-! ## Import paths -/

/-- **The import path of a directory** — the names from the first root that contains it; a root
itself has none. -/
def importPath? (t : FileTree) (roots : SourceRoots) (dir : FilePath) : Option String :=
  roots.all.findSome? fun root =>
    match root.below? (t.normalized dir) with
    | none | some [] => none
    | some steps => some (pathText (steps.map Component.text))

/-- Where a package with these segments stands under a root. -/
def candidate (root : FilePath) (segments : List String) : FilePath :=
  segments.foldl FilePath.child root

/-- The directory of the package with these segments. -/
def findSegments? (t : FileTree) (roots : SourceRoots) (segments : List String) :
    Option FilePath :=
  if segments.isEmpty then none
  else (roots.all.map fun root => candidate root segments).find? t.isPackageDirectory

/-- **The directory of the package with an import path.** -/
def find? (t : FileTree) (roots : SourceRoots) (importPath : String) : Option FilePath :=
  findSegments? t roots (packageSegments importPath)

/-- What is found is a package's directory. -/
theorem isPackageDirectory_of_find? {t : FileTree} {roots : SourceRoots} {path : String}
    {dir : FilePath} (h : roots.find? t path = some dir) : t.isPackageDirectory dir = true := by
  unfold find? findSegments? at h
  split at h
  · simp at h
  · exact List.find?_some h

end SourceRoots

end ModelPool
