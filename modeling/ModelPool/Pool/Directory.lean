import ModelPool.Package.UseTarget
import ModelPool.Text.Quoted

/-!
# Pool/Directory — where the pool may stand, and what it is called

The pool is cleared before it is filled, so its directory has to lie strictly below the framework
root; and it is imported, so every step down to it has to be an identifier.

* `checkPoolDirectory` tells the two ways to be refused apart.
-/

namespace ModelPool

open Text

/-- The directory of the pool where nothing else is said. -/
def defaultPoolDirectory : FilePath := ⟨"pool"⟩

/-- **Why a directory is refused for the pool.** -/
inductive PoolDirectoryError where
  | notRelative (dir : FilePath)
  | segment (dir : FilePath) (segment : String)
deriving DecidableEq

/-- The text of a refusal. -/
def PoolDirectoryError.message : PoolDirectoryError → String
  | notRelative dir =>
    "pool directory must be a relative path below the framework root, got " ++ quoted dir.text
  | segment dir s =>
    "pool directory segment `" ++ s ++ "` of " ++ quoted dir.text ++ " is not a package identifier"

/-- A name that a package may have: of letters, digits and underscores, without a digit in front, and
not a lone underscore. -/
def isIdentifier (s : String) : Bool :=
  match s.toList with
  | [] => false
  | c :: r => (c.isAlpha || c == '_') && s != "_" && r.all isPlain

/-- The first segments that no pool may have. -/
def isReservedRoot (s : String) : Bool := externalRoots.contains s || relativeRoots.contains s

/-- The segments of a directory: what stands between its slashes of either kind. -/
def poolSegments (dir : FilePath) : List String :=
  let forward := dir.text.toList.map fun c => if c = '\\' then '/' else c
  ((pieces forward).filter (!·.isEmpty)).map String.ofList

/-- The first segment that is no identifier; the foremost one may not be a reserved root either. -/
def badSegment? : List String → Option String
  | [] => none
  | first :: r =>
    if isReservedRoot first || !isIdentifier first then some first
    else r.find? (!isIdentifier ·)

/-- **Checks a directory for the pool.** -/
def checkPoolDirectory (dir : FilePath) : Except PoolDirectoryError Unit :=
  if dir.isAbsolute || dir.components.isEmpty then .error (.notRelative dir)
  else
    match badSegment? (poolSegments dir) with
    | some s => .error (.segment dir s)
    | none => .ok ()

/-- **The name of the pool's package**, made from the last step of its directory. -/
def poolName (dir : FilePath) : String := sanitizedName (dir.fileName?.getD "")

/-- **The import path of the pool**: the names among the steps of its directory. -/
def poolImportPath (dir : FilePath) : String :=
  pathText (dir.components.filterMap fun | .name s => some s | _ => none)

end ModelPool
