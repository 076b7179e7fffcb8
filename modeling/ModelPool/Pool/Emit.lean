import Std.Data.ExtTreeSet
import ModelPool.Pool.Alias
import ModelPool.Text.SnakeCase

/-!
# Pool/Emit — the sources of a pool

Each model becomes a file with a struct and two constants, and a registry lists all models.  Types are
written with their targets in full, except that models are written by their bare names and other
packages by their aliases.

* `Emitter.type` writes a type part by part and keeps account of the packages it refers to.
-/

namespace ModelPool

open Text

/-! ## Names of files -/

/-- The file that holds the place of a pool before its sources are written. -/
def placeholderFile : String := "temp.rs"

/-- The file that lists every model. -/
def registryFile : String := "registry.rs"

/-- The stems of the files that are no model's. -/
def reservedStems : List String := ["temp", "registry"]

/-- **The stem of a model's file**, which is never that of another file of the pool. -/
def fileStem (model : String) : String :=
  let stem := snakeCase model
  if reservedStems.contains stem then stem ++ "_model" else stem

/-- The name of a model's file. -/
def modelFile (model : String) : String := fileStem model ++ ".rs"

/-! ## Lines -/

/-- The first lines of every generated file. -/
def generatedHeader : String :=
  "// This file is autogenerated by poolgen\n" ++
    "// DO NOT MODIFY THIS FILE - ANY CHANGES WILL BE OVERWRITTEN\n"

/-- The header with the declaration of the package's name. -/
def preamble (packageName : String) : String :=
  generatedHeader ++ "#![package(" ++ packageName ++ ")]\n"

/-- A line of documentation. -/
def docLine (indent line : String) : String :=
  indent ++ "///" ++ (if line.isEmpty then "" else " " ++ line) ++ "\n"

/-- Names in quotes with commas between them. -/
def quotedList (names : List String) : String :=
  ", ".intercalate (names.map fun n => "\"" ++ n ++ "\"")

/-- A field's name without the mark of a raw identifier. -/
def plainFieldName (name : String) : String :=
  let rec strip : List Char → List Char
    | 'r' :: '#' :: r => strip r
    | cs => cs
  String.ofList (strip name.toList)

/-! ## Types -/

/-- The packages besides the pool that types refer to, in alphabetical order. -/
abbrev UsedPackages := Std.ExtTreeSet String

/-- Writing that keeps account of the packages it refers to, and that may fail. -/
abbrev Writing := StateT UsedPackages (Except SynthesisError)

/-- **What a pool is written with**: its path and name, its models and the aliases of packages. -/
structure Emitter where
  pool : String
  poolName : String
  models : List MergedModel
  aliases : List (String × String)

namespace Emitter

/-- The emitter for the models of a pool. -/
def ofModels (pool poolName : String) (models : List MergedModel) : Emitter :=
  ⟨pool, poolName, models, aliasesFor pool models⟩

/-- The name under which a package is imported. -/
def aliasOf (e : Emitter) (package : String) : String :=
  (e.aliases.lookup package).getD (lastSegment package)

/-- **A target as it is written in the pool**, for a field of a model. -/
def target (e : Emitter) (model field : String) : TypeTarget → Writing String
  | .builtin name => return name
  | .generic path => return path
  | .declared package name =>
    if package = e.pool then
      if e.models.any (·.name == name) then return name
      else throw (.unknownModel model field name)
    else do
      modify (·.insert package)
      return e.aliasOf package ++ "::" ++ name
  | .external path => return pathText path
  | .unresolved path => throw (.unresolvedType model field (pathText path))

mutual

/-- **A type as it is written in the pool**, for a field of a model. -/
def type (e : Emitter) (model field : String) : ResolvedType → Writing String
  | .path target args => do
    let name ← e.target model field target
    if args.isEmpty then return name
    return name ++ "<" ++ ", ".intercalate (← e.types model field args) ++ ">"
  | .reference lifetime mutable inner => do
    let lifetimeMark := lifetime.elim "" fun l => "'" ++ l ++ " "
    let mutableMark := if mutable then "mut " else ""
    return "&" ++ lifetimeMark ++ mutableMark ++ (← e.type model field inner)
  | .slice element => return "[" ++ (← e.type model field element) ++ "]"
  | .array element length => return "[" ++ (← e.type model field element) ++ "; " ++ length ++ "]"
  | .tuple elements => do
    match ← e.types model field elements with
    | [single] => return "(" ++ single ++ ",)"
    | written => return "(" ++ ", ".intercalate written ++ ")"
  | .traitObject keyword bound => return keyword ++ " " ++ (← e.type model field bound)
  | .verbatim text => return text

/-- Several types, from left to right. -/
def types (e : Emitter) (model field : String) : List ResolvedType → Writing (List String)
  | [] => return []
  | t :: r => return (← e.type model field t) :: (← e.types model field r)

end

/-! ## Files -/

/-- The line that imports a package. -/
def useLine (e : Emitter) (package : String) : String :=
  let bound := e.aliasOf package
  if bound = lastSegment package then "use " ++ package ++ ";\n"
  else "use " ++ package ++ " as " ++ bound ++ ";\n"

/-- The imports of packages, with an empty line before them if there are any. -/
def useLines (e : Emitter) : List String → String
  | [] => ""
  | packages => "\n" ++ String.join (packages.map e.useLine)

/-- The documentation of a model, with the packages it was put together from. -/
def modelDocs (m : MergedModel) : String :=
  String.join (m.docs.map (docLine ""))
    ++ (if m.docs.isEmpty then "" else docLine "" "")
    ++ docLine "" ("Merged from: " ++ ", ".intercalate (m.packages.map marked))

/-- A field with its documentation and its written type. -/
def fieldLines (f : MergedField) (type : String) : String :=
  String.join (f.docs.map (docLine "    ")) ++ "    pub " ++ f.name ++ ": " ++ type ++ ",\n"

/-- The struct of a model, given its fields with their written types. -/
def structLines (m : MergedModel) (fields : List (MergedField × String)) : String :=
  "pub struct " ++ m.name ++ " \x7b\n"
    ++ String.join (fields.map fun (f, type) => fieldLines f type) ++ "\x7d\n"

/-- The constants of a model. -/
def implLines (m : MergedModel) : String :=
  "impl " ++ m.name ++ " \x7b\n" ++
    "    /// Name of the model\n" ++
    "    pub const MODEL_NAME: &'static str = \"" ++ m.name ++ "\";\n\n" ++
    "    /// Names of the merged fields, in declaration order\n" ++
    "    pub const FIELD_NAMES: &'static [&'static str] = &[" ++
    quotedList (m.fields.map fun f => plainFieldName f.name) ++ "];\n\x7d\n"

/-- Fields of a model with their written types. -/
def writtenFields (e : Emitter) (model : String) :
    List MergedField → Writing (List (MergedField × String))
  | [] => return []
  | f :: r => do
    let written ← e.type model f.name f.type
    return (f, written) :: (← e.writtenFields model r)

/-- **The file of a model**, which imports the packages that its types refer to. -/
def model (e : Emitter) (m : MergedModel) : Except SynthesisError String := do
  let (fields, used) ← (e.writtenFields m.name m.fields).run ∅
  return preamble e.poolName ++ e.useLines used.toList ++ "\n" ++ modelDocs m
    ++ structLines m fields ++ "\n" ++ implLines m

/-- **The registry of the models.** -/
def registry (e : Emitter) : String :=
  preamble e.poolName ++ "\n/// Every model of the pool, in merge order\n" ++
    "pub const MODEL_NAMES: &[&str] = &[" ++ quotedList (e.models.map MergedModel.name) ++ "];\n"

/-- The files of models, given the names of files that are used already and whose they are. -/
def modelFiles (e : Emitter) (used : List (String × String)) :
    List MergedModel → Except SynthesisError (List (String × String))
  | [] => .ok []
  | m :: r => do
    let file := modelFile m.name
    match used.lookup file with
    | some first => .error (.fileNameCollision file first m.name)
    | none =>
      let content ← e.model m
      let others ← e.modelFiles ((file, m.name) :: used) r
      return (file, content) :: others

/-- **Every file of the pool**: those of the models, then the registry. -/
def files (e : Emitter) : Except SynthesisError (List (String × String)) := do
  return (← e.modelFiles [] e.models) ++ [(registryFile, e.registry)]

end Emitter

end ModelPool
