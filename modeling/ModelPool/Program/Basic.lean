import ModelPool.Program.Diagnostic
import ModelPool.Program.Target

/-!
# Program/Basic — the packages of a program and the models in them

A program is what one load gives: the packages reached from an import set, each one after those it
needs as far as that can be, with the fragments of models that they declare.
-/

namespace ModelPool

/-! ## Import sets -/

/-- **The import paths that a load starts from**, in order and with repetitions. -/
structure ImportSet where
  paths : List String
deriving DecidableEq

namespace ImportSet

/-- One more path at the end. -/
def push (s : ImportSet) (path : String) : ImportSet := ⟨s.paths ++ [path]⟩

/-- Nothing is listed. -/
def isEmpty (s : ImportSet) : Bool := s.paths.isEmpty

/-- The number of entries. -/
def size (s : ImportSet) : Nat := s.paths.length

/-- The path is listed, spelled like this. -/
def contains (s : ImportSet) (path : String) : Bool := s.paths.contains path

/-- The entries with commas between them. -/
def text (s : ImportSet) : String := ", ".intercalate s.paths

end ImportSet

/-! ## Models -/

/-- A field with its resolved type. -/
structure ResolvedField where
  name : String
  type : ResolvedType
  docs : List String
  line : Nat
deriving DecidableEq

/-- The shape of a struct's body. -/
inductive FragmentShape where
  | named
  | tuple
  | unit
deriving DecidableEq

/-- The shape of fields. -/
def Fields.shape : Fields → FragmentShape
  | .named _ => .named
  | .tuple _ => .tuple
  | .unit => .unit

/-- **A fragment of a model**, as one package declares it.  Only the named shape has fields. -/
structure ModelFragment where
  name : String
  docs : List String
  generics : List String
  shape : FragmentShape
  fields : List ResolvedField
  file : FilePath
  line : Nat
deriving DecidableEq

/-! ## Programs -/

/-- A loaded package. -/
structure Package where
  name : String
  importPath : String
  dir : FilePath
  files : List SourceFile
  imports : List String
  models : List ModelFragment

/-- Whether a load goes on in spite of problems. -/
inductive LoadMode where
  | tolerant
  | strict
deriving DecidableEq

/-- **What a load gives.** -/
structure Program where
  mode : LoadMode
  imports : ImportSet
  packages : List Package
  diagnostics : List Diagnostic

namespace Program

/-- The loaded package with an import path. -/
def package? (p : Program) (path : String) : Option Package :=
  p.packages.find? (·.importPath == path)

/-- The load met a problem. -/
def hasErrors (p : Program) : Bool := !p.diagnostics.isEmpty

/-- **Every fragment with its package**, in load order. -/
def fragments (p : Program) : List (Package × ModelFragment) :=
  p.packages.flatMap fun package => package.models.map (package, ·)

end Program

end ModelPool
