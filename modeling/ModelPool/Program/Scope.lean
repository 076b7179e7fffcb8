import ModelPool.Program.Declarations
import ModelPool.Program.Reported

/-!
# Program/Scope — what names mean in one file

The `use` entries of a file bind names, each of them once, to a package, to an item, or to a path into
the standard library; globs lend the types of whole packages.  A path is then resolved by its first
segment.

A scope depends on nothing but how entries are classified and what the loaded packages declare, which
its `Surroundings` give.

* `Scope.resolveName_own` — a type of the package comes before every import.
-/

namespace ModelPool

/-! ## Names without an import -/

/-- The types that are known everywhere. -/
def builtinTypes : List String :=
  ["bool", "char", "str", "u8", "u16", "u32", "u64", "u128", "usize", "i8", "i16", "i32", "i64",
    "i128", "isize", "f32", "f64", "String", "Vec", "Option", "Result", "Box"]

/-- The traits that are known everywhere. -/
def preludeTraits : List String :=
  ["Clone", "Copy", "Default", "Drop", "Eq", "PartialEq", "Ord", "PartialOrd", "Send", "Sync",
    "Sized", "Unpin", "Fn", "FnMut", "FnOnce", "From", "Into", "TryFrom", "TryInto", "AsRef",
    "AsMut", "Iterator", "IntoIterator", "DoubleEndedIterator", "ExactSizeIterator", "Extend",
    "ToOwned", "ToString"]

/-- The name is known everywhere. -/
def isBuiltin (name : String) : Bool := builtinTypes.contains name || preludeTraits.contains name

/-! ## Scopes -/

/-- What a name is bound to. -/
inductive Binding where
  | package (path : String)
  | item (package name : String)
  | external (path : List String)
  | unresolved
deriving DecidableEq

/-- **What a file's names can refer to**: where entries point, and what loaded packages declare. -/
structure Surroundings where
  classify : UseEntry → UseTarget
  declarations? : String → Option Declarations

namespace Surroundings

/-- A loaded package declares the name. -/
def declares (s : Surroundings) (package name : String) : Bool :=
  match s.declarations? package with
  | some d => d.contains name
  | none => false

/-- A loaded package declares the name as a type. -/
def declaresType (s : Surroundings) (package name : String) : Bool :=
  match s.declarations? package with
  | some d => d.hasType name
  | none => false

end Surroundings

/-- **The names of a file**: its package, what is bound, and the packages of its globs. -/
structure Scope where
  package : String
  bindings : List (String × Binding)
  globs : List String

namespace Scope

/-- What the file binds a name to. -/
def binding? (s : Scope) (name : String) : Option Binding := s.bindings.lookup name

/-- The binding that an entry's target gives, and what is wrong with it. -/
def bindingFor (s : Surroundings) (u : UseEntry) : UseTarget → Binding × List Problem
  | .package path => (.package path, [])
  | .item owner name =>
    (.item owner name, if s.declares owner name then [] else [.itemNotDeclared name owner])
  | .external => (.external u.path, [])
  | .unsupported => (.unresolved, [.relativeImport u.pathText])
  | .unresolved | .glob _ => (.unresolved, [.unresolvedImport u.pathText])

/-- The name is taken: the package declares it, or the file binds it already. -/
def isTaken (s : Surroundings) (scope : Scope) (name : String) : Bool :=
  s.declares scope.package name || (scope.binding? name).isSome

/-- Binds a name, unless it is taken; a lone underscore binds nothing. -/
def bind (s : Surroundings) (scope : Scope) (name : String) (b : Binding) : Scope × List Problem :=
  if name = "_" then (scope, [])
  else if scope.isTaken s name then (scope, [.importedTwice name])
  else ({ scope with bindings := scope.bindings ++ [(name, b)] }, [])

/-- **The scope behind a `use` entry**, and what is wrong with the entry. -/
def add (s : Surroundings) (scope : Scope) (u : UseEntry) : Scope × List Problem :=
  match s.classify u with
  | .glob owner =>
    if owner ∈ scope.globs then (scope, [])
    else ({ scope with globs := scope.globs ++ [owner] }, [])
  | target =>
    let (b, problems) := bindingFor s u target
    match u.bindingName? with
    | none => (scope, problems)
    | some name =>
      let (scope, more) := scope.bind s name b
      (scope, problems ++ more)

/-- The scope behind several entries of a file. -/
def addAll (s : Surroundings) (file : FilePath) : Scope → List UseEntry → Reported Scope
  | scope, [] => pure scope
  | scope, u :: r => do
    let (scope, problems) := scope.add s u
    Reported.report (problems.map (·.inFile scope.package file u.line))
    addAll s file scope r

/-- **The scope of a file.** -/
def ofFile (s : Surroundings) (package : String) (f : SourceFile) : Reported Scope :=
  addAll s f.path ⟨package, [], []⟩ f.unit.uses

/-! ## Resolving -/

/-- A type of a package that is known to exist; it is a target also where the package has no such
type. -/
def declaredIn (s : Surroundings) (package name : String) : TypeTarget × List Problem :=
  (.declared package name,
    if s.declaresType package name then [] else [.typeNotDeclared name package])

/-- A path that begins with the path of a loaded package. -/
def resolveQualified (s : Surroundings) (path : List String) : TypeTarget × List Problem :=
  match path.getLast? with
  | none => (.unresolved [], [])
  | some name =>
    let package := pathText path.dropLast
    if (s.declarations? package).isSome then declaredIn s package name
    else (.unresolved path, [.unknownPath (pathText path)])

/-- The first glob whose package declares a type. -/
def globWith? (s : Surroundings) (scope : Scope) (name : String) : Option String :=
  scope.globs.find? fun package => s.declaresType package name

/-- **A single name**: a type of the package, then what the file binds, then what is known
everywhere, then the types of globs. -/
def resolveName (s : Surroundings) (scope : Scope) (name : String) : TypeTarget × List Problem :=
  if s.declaresType scope.package name then (.declared scope.package name, [])
  else
    match scope.binding? name with
    | some (.item owner item) => (.declared owner item, [])
    | some (.external path) => (.external path, [])
    | some .unresolved => (.unresolved [name], [])
    | some (.package path) => (.unresolved [name], [.packageAsType name path])
    | none =>
      if isBuiltin name then (.builtin name, [])
      else
        match scope.globWith? s name with
        | some package => (.declared package name, [])
        | none => (.unresolved [name], [.undefinedType name])

/-- A path of several segments, by its first. -/
def resolveJoined (s : Surroundings) (scope : Scope) (first : String) (rest : List String) :
    TypeTarget × List Problem :=
  let path := first :: rest
  if externalRoots.contains first then (.external path, [])
  else
    match scope.binding? first with
    | some (.package package) =>
      match rest with
      | [name] => declaredIn s package name
      | _ => resolveQualified s (((splitColons package.toList).map String.ofList) ++ rest)
    | some (.external above) => (.external (above ++ rest), [])
    | some (.item owner item) =>
      (.unresolved path, [.itemAsPackage (pathText path) item owner])
    | some .unresolved => (.unresolved path, [])
    | none => resolveQualified s path

/-- **The target of a path**, and what is wrong with it. -/
def resolvePath (s : Surroundings) (scope : Scope) (generics : List String) :
    List String → TypeTarget × List Problem
  | [] => (.unresolved [], [])
  | first :: rest =>
    if first = "Self" ∨ first ∈ generics then (.generic (pathText (first :: rest)), [])
    else
      match rest with
      | [] => scope.resolveName s first
      | _ => scope.resolveJoined s first rest

/-- A type of the package comes before every import. -/
theorem resolveName_own {s : Surroundings} {scope : Scope} {name : String}
    (h : s.declaresType scope.package name = true) :
    scope.resolveName s name = (.declared scope.package name, []) := by
  simp [resolveName, h]

/-- **Resolves a type** in a file, at the line that its problems are told for. -/
def resolve (s : Surroundings) (scope : Scope) (file : FilePath) (generics : List String)
    (line : Nat) (t : TypeExpr) : Reported ResolvedType :=
  t.traverse fun path => do
    let (target, problems) := scope.resolvePath s generics path
    Reported.report (problems.map (·.inFile scope.package file line))
    pure target

end Scope

end ModelPool
