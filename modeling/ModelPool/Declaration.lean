import ModelPool.Type

/-!
# Declaration — what a module source declares

The declarations a package is made of: attributes, `use` entries, items with their fields and
signatures, and `impl` blocks.  A `SourceUnit` holds all of one file, and `Item.isModel` singles out
the structs that are fragments of a model.
-/

namespace ModelPool

/-! ## Attributes and imports -/

/-- An attribute: its path, and the text of its arguments if it has any. -/
structure Attribute where
  name : String
  args : Option String
deriving DecidableEq

/-- One name, renamed name or glob that a `use` declaration brings in. -/
structure UseEntry where
  path : List String
  asName : Option String
  glob : Bool
  line : Nat
deriving DecidableEq

/-- **The name an entry binds in its file** — the new name, else the last segment; a glob binds
none. -/
def UseEntry.bindingName? (u : UseEntry) : Option String :=
  if u.glob then none else u.asName <|> u.path.getLast?

/-- An entry's path as text, with the mark of a glob. -/
def UseEntry.pathText (u : UseEntry) : String :=
  ModelPool.pathText u.path ++ if u.glob then "::*" else ""

/-! ## Items -/

/-- A named field. -/
structure Field where
  name : String
  type : TypeExpr
  docs : List String
  line : Nat
deriving DecidableEq

/-- The body of a struct or of a variant. -/
inductive Fields where
  | named (fields : List Field)
  | tuple (types : List TypeExpr)
  | unit
deriving DecidableEq

/-- Every type among the fields. -/
def Fields.types : Fields → List TypeExpr
  | named fields => fields.map Field.type
  | tuple types => types
  | unit => []

/-- A variant of an enum. -/
structure Variant where
  name : String
  fields : Fields
deriving DecidableEq

/-- A function's type parameters, the types of its parameters and of its result; receivers without
a type are left out. -/
structure Signature where
  generics : List String
  params : List TypeExpr
  output : Option TypeExpr
deriving DecidableEq

/-- The kind of an item with what belongs to it. -/
inductive ItemKind where
  | struct (fields : Fields)
  | enum (variants : List Variant)
  | union
  | typeAlias (type : TypeExpr)
  | trait
  | function (signature : Signature)
  | const (type : TypeExpr)
  | static (type : TypeExpr)
  | module
  | macroRules
deriving DecidableEq

namespace ItemKind

/-- The word that declares items of the kind. -/
def keyword : ItemKind → String
  | struct _ => "struct"
  | enum _ => "enum"
  | union => "union"
  | typeAlias _ => "type"
  | trait => "trait"
  | function _ => "fn"
  | const _ => "const"
  | static _ => "static"
  | module => "mod"
  | macroRules => "macro"

/-- Items of the kind name a type. -/
def isType : ItemKind → Bool
  | struct _ | enum _ | union | typeAlias _ | trait => true
  | function _ | const _ | static _ | module | macroRules => false

/-- Every type that stands in the item: fields, those of all variants in order, the type of an
alias, constant or static, and a function's parameters and result. -/
def types : ItemKind → List TypeExpr
  | struct fields => fields.types
  | enum variants => variants.flatMap fun v => v.fields.types
  | typeAlias type | const type | static type => [type]
  | function signature => signature.params ++ signature.output.toList
  | union | trait | module | macroRules => []

end ItemKind

/-- A named item at the top level of a file. -/
structure Item where
  name : String
  kind : ItemKind
  generics : List String
  attributes : List Attribute
  docs : List String
  isPublic : Bool
  line : Nat
deriving DecidableEq

/-- The attribute that makes a struct a fragment of a model. -/
def modelAttribute : String := "model"

/-- **A fragment of a model** — a struct with the attribute `model`. -/
def Item.isModel (item : Item) : Bool :=
  (match item.kind with | .struct _ => true | _ => false) &&
    item.attributes.any (·.name == modelAttribute)

/-! ## Implementation blocks -/

/-- A member of an `impl` block. -/
inductive Member where
  | function (name : String) (signature : Signature) (line : Nat)
  | const (name : String) (type : TypeExpr) (line : Nat)
  | type (name : String) (type : TypeExpr) (line : Nat)
deriving DecidableEq

/-- An `impl` block: the trait it is for, if any, and the type it belongs to. -/
structure ImplBlock where
  generics : List String
  traitRef : Option TypeExpr
  selfType : TypeExpr
  members : List Member
  line : Nat
deriving DecidableEq

/-! ## Files -/

/-- A place where a source is not well formed. -/
structure SyntaxError where
  line : Nat
  column : Nat
  message : String
deriving DecidableEq

/-- The inner attribute that gives a file's package its name. -/
def packageAttribute : String := "package"

/-- **What one file declares**, in source order. -/
structure SourceUnit where
  package : Option String
  innerAttributes : List Attribute
  uses : List UseEntry
  items : List Item
  impls : List ImplBlock
  syntaxErrors : List SyntaxError
deriving DecidableEq

namespace SourceUnit

/-- A file without declarations. -/
def empty : SourceUnit := ⟨none, [], [], [], [], []⟩

/-- No place of the file is malformed. -/
def isWellFormed (u : SourceUnit) : Bool := u.syntaxErrors.isEmpty

/-- The fragments of models that the file declares. -/
def models (u : SourceUnit) : List Item := u.items.filter Item.isModel

end SourceUnit

end ModelPool
