import ModelPool.Pool.Directory
import ModelPool.Program.Basic

/-!
# Run/Resolution — what a run is to load

A run is configured for a project, whose `config` package imports the modules to load, or for a single
module to be tested alone.

* `RunConfig.resolve` — what is loaded, and for which package.
-/

namespace ModelPool

/-- The directory inside a project that imports the modules. -/
def configDirectory : String := "config"

/-- **The inputs of a run.** -/
structure RunConfig where
  projectDir : FilePath
  testModule : Option FilePath
  emptyPool : Bool
  frameworkRoot : FilePath
  poolDir : FilePath
  sourceRoots : List FilePath
deriving DecidableEq

namespace RunConfig

/-- A framework with everything else as usual. -/
def ofFramework (root : FilePath) : RunConfig :=
  ⟨⟨"."⟩, none, false, root, defaultPoolDirectory, []⟩

/-- Where the pool stands. -/
def poolPath (c : RunConfig) : FilePath := c.frameworkRoot.join c.poolDir

/-- The import path of the pool. -/
def pool (c : RunConfig) : String := poolImportPath c.poolDir

/-- The name of the pool's package. -/
def poolName (c : RunConfig) : String := ModelPool.poolName c.poolDir

/-- The source roots of a run. -/
def roots (t : FileTree) (c : RunConfig) : SourceRoots :=
  .ofFramework t c.frameworkRoot c.sourceRoots

end RunConfig

/-- **Why it is not known what to load.** -/
inductive ResolveError where
  | outsideRoots (dir : FilePath)
  | package (error : PackageError)

/-- The text of an error. -/
def ResolveError.message : ResolveError → String
  | outsideRoots dir => "module " ++ dir.text ++ " is not under any source root"
  | package e => "error while importing project: " ++ e.message

/-- **What a run loads**, and for which package. -/
structure Resolution where
  targetDir : FilePath
  package : String
  imports : ImportSet
  testMode : Bool

namespace RunConfig

/-- The directory of the package that tells what to load. -/
def targetDir (t : FileTree) (c : RunConfig) : FilePath :=
  match c.testModule with
  | some module => (FilePath.ofPlace t.current).join module
  | none => c.projectDir.child configDirectory

/-- The imports that a target package asks for. -/
def importsFor (c : RunConfig) (info : PackageInfo) : Except ResolveError ImportSet :=
  if c.testModule.isSome then
    match info.importPath with
    | some path => .ok ⟨[path]⟩
    | none => .error (.outsideRoots info.dir)
  else .ok ⟨info.imports⟩

/-- **Finds out what a run loads.** -/
def resolve (t : FileTree) (roots : SourceRoots) (c : RunConfig) : Except ResolveError Resolution :=
  match PackageInfo.importDirectory t roots (c.targetDir t) with
  | .error e => .error (.package e)
  | .ok info => do
    let imports ← c.importsFor info
    return ⟨info.dir, info.name, imports, c.testModule.isSome⟩

end RunConfig

end ModelPool
