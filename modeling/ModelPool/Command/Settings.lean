import ModelPool.Command.Failure
import ModelPool.Toml.Reading

/-!
# Command/Settings — the settings of a framework

Settings stand in a file at the framework root.  What the file leaves out is as usual; names that are
no settings mean nothing.  A group of settings may also be given as an array of its values in order.
-/

namespace ModelPool

/-- **The settings of a framework.** -/
structure Settings where
  poolDir : FilePath
  sourceRoots : List FilePath
  logLevel : String
deriving DecidableEq

namespace Settings

/-- The name of the file at the framework root. -/
def fileName : String := "poolgen.toml"

/-- The settings where nothing is said. -/
def usual : Settings := ⟨defaultPoolDirectory, [], "warn"⟩

/-! ## Reading -/

/-- A text. -/
def textOf? : Toml → Option String
  | .text s => some s
  | _ => none

/-- An array of texts. -/
def textsOf? : Toml → Option (List String)
  | .array elements => elements.mapM textOf?
  | _ => none

/-- A value read where it is given, and a usual one where it is not. -/
def readOr {α : Type} (usual : α) (read : Toml → Option α) : Option Toml → Option α
  | none => some usual
  | some v => read v

/-- **The settings of a group**, by their names.  A point in time stands for a group without any. -/
def group? (names : List String) : Option Toml → Option (List (String × Toml))
  | none | some (.moment _) => some []
  | some (.table _ entries) => some entries
  | some (.array elements) => some (names.zip elements)
  | some (.tables elements) => some (names.zip (elements.map (.table .header)))
  | some _ => none

/-- **The settings that a document holds.** -/
def ofEntries? (entries : Toml.Entries) : Option Settings := do
  let generate ← group? ["pool_dir", "source_roots"] (entries.lookup "generate")
  let logging ← group? ["level"] (entries.lookup "logging")
  return {
    poolDir := ⟨← readOr usual.poolDir.text textOf? (generate.lookup "pool_dir")⟩
    sourceRoots := (← readOr [] textsOf? (generate.lookup "source_roots")).map FilePath.mk
    logLevel := ← readOr usual.logLevel textOf? (logging.lookup "level") }

/-- **The settings in a file.** -/
def loadFile (t : FileTree) (file : FilePath) : Except Failure Settings :=
  match t.readText file with
  | .error cause => .error (.unreadableSettings file cause)
  | .ok text =>
    match Toml.read? text >>= ofEntries? with
    | none => .error (.malformedSettings file)
    | some settings =>
      match checkPoolDirectory settings.poolDir with
      | .error e => .error (.ofPoolDirectory e)
      | .ok () => .ok settings

/-- **The settings of the framework at a root**, which may have no file of them. -/
def load (t : FileTree) (root : FilePath) : Except Failure Settings :=
  let file := root.child fileName
  if t.exists? file then loadFile t file else .ok usual

end Settings

end ModelPool
