import ModelPool.Files.Access
import ModelPool.Json.Layout
import ModelPool.Json.Reading
import ModelPool.Run.Report

/-!
# Run/ReportFile — reports kept in files

A report is written as an object with a member for each of its parts.  It is read from such an object,
whose members may come in any order and among others, or from an array of the parts.
-/

namespace ModelPool.RunReport

open Json

/-! ## Writing -/

/-- The names of the parts, in the order they are written in. -/
def partNames : List String :=
  ["pool_dir", "package", "imports", "loaded_packages", "models", "files", "warnings", "digest"]

/-- A text that may be missing. -/
def ofTextOrNone : Option String → Json
  | some s => .ofText s
  | none => .null

/-- The parts of a report, in order. -/
def parts (r : RunReport) : List Json :=
  [.ofText r.poolDir.text, ofTextOrNone r.package, .array (r.imports.map .ofText),
    .array (r.loadedPackages.map .ofText), .array (r.models.map .ofText),
    .array (r.files.map fun f => .ofText f.text), .ofNat r.warnings, ofTextOrNone r.digest]

/-- The report as an object. -/
def toJson (r : RunReport) : Json :=
  .object ((partNames.map fun n => ofBytes n.toUTF8).zip r.parts)

/-- **Writes a report to a file**, in a directory that is made if it is missing. -/
def save (t : FileTree) (r : RunReport) (p : FilePath) : FileTree × Except IoError Unit :=
  let dir := p.parent?.getD ⟨""⟩
  match t.makeDirectories dir with
  | .error e => (t.leftByDirectories dir, .error e)
  | .ok made =>
    match made.writeFile p r.toJson.layout with
    | .error e => (made, .error e)
    | .ok written => (written, .ok ())

/-! ## Reading -/

/-- A part that is a text. -/
def readText? (part : Option Json) : Option String := do text? (← part)

/-- A part that is a text, null, or missing. -/
def readTextOrNone? : Option Json → Option (Option String)
  | none | some .null => some none
  | some json => (text? json).map some

/-- A part that is an array of texts. -/
def readTexts? (part : Option Json) : Option (List String) := do
  (← elements? (← part)).mapM text?

/-- **The report whose parts a function finds.** -/
def ofParts? (part : String → Option Json) : Option RunReport := do
  return {
    poolDir := ⟨← readText? (part "pool_dir")⟩
    package := ← readTextOrNone? (part "package")
    imports := ← readTexts? (part "imports")
    loadedPackages := ← readTexts? (part "loaded_packages")
    models := ← readTexts? (part "models")
    files := (← readTexts? (part "files")).map FilePath.mk
    warnings := ← natural? (1 <<< 64) (← part "warnings")
    digest := ← readTextOrNone? (part "digest") }

/-- The members of an object that are parts of a report; each may be there only once. -/
def knownMembers? (members : List (List Char × Json)) : Option (List (String × Json)) := do
  let named ← members.mapM fun (name, json) => return (← text? (.string name), json)
  let known := named.filter fun (name, _) => partNames.contains name
  if (known.map Prod.fst).Nodup then some known else none

/-- The report that a value stands for. -/
def ofJson? : Json → Option RunReport
  | .object members => do
    let known ← knownMembers? members
    ofParts? (List.lookup · known)
  | .array elements =>
    if elements.length = partNames.length then
      ofParts? (List.lookup · (partNames.zip elements))
    else none
  | _ => none

/-- **Reads a report from a file.** -/
def load? (t : FileTree) (p : FilePath) : Option RunReport :=
  match t.readBytes p with
  | .ok bytes => read? bytes >>= ofJson?
  | .error _ => none

end ModelPool.RunReport
