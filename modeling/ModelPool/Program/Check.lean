import ModelPool.Program.Scope

/-!
# Program/Check — the signatures of a file, and the models among its structs

Every type in a signature is resolved, for the diagnostics that this finds.  Of what is resolved only
the named fields of model structs are kept.

Problems of named fields are told at the line of the field, those of members at the line of the member,
and all others at the line of the item or block.
-/

namespace ModelPool

/-- **A file being checked**: its surroundings, its names and where it stands. -/
structure FileCheck where
  surroundings : Surroundings
  scope : Scope
  file : FilePath

namespace FileCheck

/-- Resolves a type of the file. -/
def resolve (c : FileCheck) (generics : List String) (line : Nat) (t : TypeExpr) :
    Reported ResolvedType :=
  c.scope.resolve c.surroundings c.file generics line t

/-- Resolves types for what is found on the way. -/
def resolveAll (c : FileCheck) (generics : List String) (line : Nat) : List TypeExpr → Reported Unit
  | [] => pure ()
  | t :: r => do
    let _ ← c.resolve generics line t
    c.resolveAll generics line r

/-- Resolves named fields. -/
def namedFields (c : FileCheck) (generics : List String) : List Field → Reported (List ResolvedField)
  | [] => pure []
  | f :: r => do
    let type ← c.resolve generics f.line f.type
    let others ← c.namedFields generics r
    pure (⟨f.name, type, f.docs, f.line⟩ :: others)

/-- Resolves fields; those without a name are not kept. -/
def fields (c : FileCheck) (generics : List String) (line : Nat) :
    Fields → Reported (List ResolvedField)
  | .named fs => c.namedFields generics fs
  | .tuple types => do
    c.resolveAll generics line types
    pure []
  | .unit => pure []

/-- Resolves the fields of variants. -/
def variants (c : FileCheck) (generics : List String) (line : Nat) : List Variant → Reported Unit
  | [] => pure ()
  | v :: r => do
    let _ ← c.fields generics line v.fields
    c.variants generics line r

/-- **Checks an item**, and gives the fragment that it is, if it is one. -/
def item (c : FileCheck) (i : Item) : Reported (Option ModelFragment) :=
  match i.kind with
  | .struct fs => do
    let resolved ← c.fields i.generics i.line fs
    pure (if i.isModel then
      some ⟨i.name, i.docs, i.generics, fs.shape, resolved, c.file, i.line⟩ else none)
  | .enum vs => do
    c.variants i.generics i.line vs
    pure none
  | kind => do
    c.resolveAll i.generics i.line kind.types
    pure none

/-- Checks items, and gives the fragments among them. -/
def items (c : FileCheck) : List Item → Reported (List ModelFragment)
  | [] => pure []
  | i :: r => do
    let fragment ← c.item i
    let others ← c.items r
    pure (fragment.toList ++ others)

/-- Checks a member of an `impl` block with these type parameters. -/
def member (c : FileCheck) (generics : List String) : Member → Reported Unit
  | .function _ signature line =>
    c.resolveAll (generics ++ signature.generics) line (signature.params ++ signature.output.toList)
  | .const _ type line | .type _ type line => c.resolveAll generics line [type]

/-- Checks members. -/
def members (c : FileCheck) (generics : List String) : List Member → Reported Unit
  | [] => pure ()
  | m :: r => do
    c.member generics m
    c.members generics r

/-- **Checks `impl` blocks**: the type, the trait, and the members. -/
def impls (c : FileCheck) : List ImplBlock → Reported Unit
  | [] => pure ()
  | b :: r => do
    c.resolveAll b.generics b.line (b.selfType :: b.traitRef.toList)
    c.members b.generics b.members
    c.impls r

end FileCheck

namespace SourceFile

/-- **Checks a file of a package**, and gives the fragments that it declares. -/
def check (s : Surroundings) (package : String) (f : SourceFile) : Reported (List ModelFragment) :=
  do
    let scope ← Scope.ofFile s package f
    let c : FileCheck := ⟨s, scope, f.path⟩
    let fragments ← c.items f.unit.items
    c.impls f.unit.impls
    pure fragments

/-- Checks the files of a package. -/
def checkAll (s : Surroundings) (package : String) :
    List SourceFile → Reported (List ModelFragment)
  | [] => pure []
  | f :: r => do
    let fragments ← f.check s package
    let others ← checkAll s package r
    pure (fragments ++ others)

end SourceFile

end ModelPool
