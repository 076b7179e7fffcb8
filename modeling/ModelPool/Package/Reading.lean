import ModelPool.Package.UseTarget
import ModelPool.Source.Unit

/-!
# Package/Reading — a package read from its directory

Reading a package takes in every source file and judges nothing: errors of syntax stay in the files,
and every name that a file declares for the package is kept.  Importing a package refuses what keeps
it from being built.

* `PackageInfo.read` and `PackageInfo.importDirectory` are the two ways.
-/

namespace ModelPool

/-- A source file with what it declares. -/
structure SourceFile where
  path : FilePath
  unit : SourceUnit

/-- **A package as read.**  The imports of a package are the packages its files use, and the paths
of the entries that point nowhere. -/
structure PackageInfo where
  name : String
  importPath : Option String
  dir : FilePath
  files : List SourceFile
  declaredNames : List String
  imports : List String

/-- **Why a package cannot be read or imported.** -/
inductive PackageError where
  | notFound (dir : FilePath)
  | noSources (dir : FilePath)
  | syntaxError (file : FilePath) (error : SyntaxError)
  | conflictingNames (dir : FilePath) (first second : String)
  | unlistable (dir : FilePath) (cause : IoError)
  | unreadable (file : FilePath) (cause : IoError)

/-- The text of a failure at a directory that has to be listed. -/
def listingMessage (dir : FilePath) (cause : IoError) : String :=
  "IO error for operation on " ++ dir.text ++ ": " ++ cause.message

/-- Two names for one package. -/
def conflictMessage (dir : FilePath) (first second : String) : String :=
  "found packages " ++ first ++ " and " ++ second ++ " in " ++ dir.text

/-- The text of an error. -/
def PackageError.message : PackageError → String
  | notFound dir => "cannot find package directory " ++ dir.text
  | noSources dir => "no buildable source files in " ++ dir.text
  | syntaxError file e =>
    file.text ++ ":" ++ toString e.line ++ ":" ++ toString e.column ++ ": syntax error: " ++ e.message
  | conflictingNames dir first second => conflictMessage dir first second
  | unlistable dir cause => "failed to read " ++ dir.text ++ ": " ++ listingMessage dir cause
  | unreadable file cause => "failed to read " ++ file.text ++ ": " ++ cause.message

namespace PackageInfo

/-- The import that a `use` entry stands for, if it is one. -/
def dependency? (t : FileTree) (roots : SourceRoots) (u : UseEntry) : Option String :=
  match roots.classify t u with
  | .external | .unsupported => none
  | .unresolved => some (pathText u.path)
  | target => target.package?

/-- The imports of files, each once, without the package they belong to. -/
def importsOf (t : FileTree) (roots : SourceRoots) (own : Option String)
    (files : List SourceFile) : List String :=
  let paths := (files.flatMap fun f => f.unit.uses).filterMap (dependency? t roots)
  (paths.filter fun p => decide (own ≠ some p)).eraseDups

/-- The name of a package: the first one declared, else the one made from its directory. -/
def nameFor (dir : FilePath) (declared : List String) : String :=
  match declared with
  | name :: _ => name
  | [] => sanitizedName (dir.fileName?.getD "")

/-- A package from its files. -/
def ofFiles (t : FileTree) (roots : SourceRoots) (dir : FilePath) (files : List SourceFile) :
    PackageInfo :=
  let declared := (files.filterMap fun f => f.unit.package).eraseDups
  let importPath := roots.importPath? t dir
  ⟨nameFor dir declared, importPath, dir, files, declared, importsOf t roots importPath files⟩

/-- A source file read. -/
def readFile (t : FileTree) (path : FilePath) : Except PackageError SourceFile :=
  match t.readCharacters path with
  | .ok cs => .ok ⟨path, .ofCharacters cs⟩
  | .error cause => .error (.unreadable path cause)

/-- The source files of a directory, of which there has to be one. -/
def sourceFilesOf (t : FileTree) (dir : FilePath) : Except PackageError (List FilePath) :=
  match t.sourceFiles dir with
  | .error cause => .error (.unlistable dir cause)
  | .ok [] => .error (.noSources dir)
  | .ok paths => .ok paths

/-- Reads the package in a directory whose path is canonical. -/
def readCanonical (t : FileTree) (roots : SourceRoots) (dir : FilePath) :
    Except PackageError PackageInfo := do
  let paths ← sourceFilesOf t dir
  let files ← paths.mapM (readFile t)
  return ofFiles t roots dir files

/-- **Reads a package.** -/
def read (t : FileTree) (roots : SourceRoots) (dir : FilePath) :
    Except PackageError PackageInfo :=
  if t.isDirectory dir then readCanonical t roots (t.normalized dir) else .error (.notFound dir)

/-- The first thing that keeps a package from being built. -/
def fault? (info : PackageInfo) : Option PackageError :=
  let malformed := info.files.findSome? fun f =>
    f.unit.syntaxErrors.head?.map (PackageError.syntaxError f.path)
  malformed <|>
    match info.declaredNames with
    | first :: second :: _ => some (.conflictingNames info.dir first second)
    | _ => none

/-- **Imports a package** — reads it and refuses one that cannot be built. -/
def importDirectory (t : FileTree) (roots : SourceRoots) (dir : FilePath) :
    Except PackageError PackageInfo := do
  let info ← read t roots dir
  match info.fault? with
  | some e => .error e
  | none => .ok info

end PackageInfo

end ModelPool
