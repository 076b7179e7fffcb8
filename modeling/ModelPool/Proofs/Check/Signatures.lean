import ModelPool.Proofs.Check.Fragments
import ModelPool.Proofs.Check.Uses

/-!
# Proofs/Check/Signatures — every type of a file is checked

    item, member    its types          with its type parameters in scope
    block           its type, trait    with those of the block
    field           its type           with those of the item

The checker resolves each path of each type that stands in a signature, and it tells what is wrong with
it.  So a file has no problems exactly if its entries have none and every path resolves without one.

* `SourceUnit.writtenTypes`, `SourceUnit.placedTypes` — the types of a file, and their lines.
* `foundInTypes_eq` — what is told of them.
* `found_check_eq_nil_iff` — when a file has no problems.
-/

namespace ModelPool

/-! ## The types of a file -/

/-- **A type where it is written**: with the type parameters in scope there. -/
structure WrittenType where
  generics : List String
  type : TypeExpr

/-- The types in an item's signature. -/
def Item.writtenTypes (i : Item) : List WrittenType := i.kind.types.map (WrittenType.mk i.generics)

/-- The types in the signature of a member of an `impl` block. -/
def Member.writtenTypes (generics : List String) : Member → List WrittenType
  | .function _ signature _ =>
    (signature.params ++ signature.output.toList).map (WrittenType.mk (generics ++ signature.generics))
  | .const _ t _ | .type _ t _ => [⟨generics, t⟩]

/-- The types of an `impl` block and of its members. -/
def ImplBlock.writtenTypes (b : ImplBlock) : List WrittenType :=
  (b.selfType :: b.traitRef.toList).map (WrittenType.mk b.generics) ++
    b.members.flatMap (Member.writtenTypes b.generics)

/-- **The types of a file.** -/
def SourceUnit.writtenTypes (u : SourceUnit) : List WrittenType :=
  u.items.flatMap Item.writtenTypes ++ u.impls.flatMap ImplBlock.writtenTypes

/-- A named field of a struct is among the types of the struct. -/
theorem Item.mem_writtenTypes_of_mem_structFields {i : Item} {x : Field}
    (h : x ∈ i.structFields.withNames) : ⟨i.generics, x.type⟩ ∈ i.writtenTypes := by
  refine List.mem_map_of_mem ?_
  unfold structFields at h
  cases hkind : i.kind with
  | struct fs =>
    rw [hkind] at h
    cases fs with
    | named fields => exact List.mem_map_of_mem h
    | tuple types => exact absurd h List.not_mem_nil
    | unit => exact absurd h List.not_mem_nil
  | _ =>
    rw [hkind] at h
    exact absurd h List.not_mem_nil

/-! ## Where they are told of -/

/-- **A type with the line that its problems are told for.** -/
structure PlacedType extends WrittenType where
  line : Nat

/-- The types of fields: those of named fields at lines of their own. -/
def Fields.placedTypes (generics : List String) (line : Nat) : Fields → List PlacedType
  | .named fs => fs.map fun f => ⟨⟨generics, f.type⟩, f.line⟩
  | .tuple types => types.map fun t => ⟨⟨generics, t⟩, line⟩
  | .unit => []

/-- The types in an item's signature. -/
def Item.placedTypes (i : Item) : List PlacedType :=
  match i.kind with
  | .struct fs => fs.placedTypes i.generics i.line
  | .enum vs => vs.flatMap fun v => v.fields.placedTypes i.generics i.line
  | kind => kind.types.map fun t => ⟨⟨i.generics, t⟩, i.line⟩

/-- The types in the signature of a member of an `impl` block. -/
def Member.placedTypes (generics : List String) : Member → List PlacedType
  | .function _ signature line => (signature.params ++ signature.output.toList).map fun t =>
    ⟨⟨generics ++ signature.generics, t⟩, line⟩
  | .const _ t line | .type _ t line => [⟨⟨generics, t⟩, line⟩]

/-- The types of an `impl` block and of its members. -/
def ImplBlock.placedTypes (b : ImplBlock) : List PlacedType :=
  ((b.selfType :: b.traitRef.toList).map fun t => ⟨⟨b.generics, t⟩, b.line⟩) ++
    b.members.flatMap (Member.placedTypes b.generics)

/-- **The types of a file with their lines.** -/
def SourceUnit.placedTypes (u : SourceUnit) : List PlacedType :=
  u.items.flatMap Item.placedTypes ++ u.impls.flatMap ImplBlock.placedTypes

section Lines

open PlacedType

theorem Fields.map_placedTypes (generics : List String) (line : Nat) (fs : Fields) :
    (fs.placedTypes generics line).map toWrittenType = fs.types.map (WrittenType.mk generics) := by
  cases fs <;> simp [placedTypes, types, Function.comp_def]

theorem Item.map_placedTypes (i : Item) : i.placedTypes.map toWrittenType = i.writtenTypes := by
  unfold placedTypes writtenTypes
  cases i.kind with
  | struct fs => exact fs.map_placedTypes i.generics i.line
  | enum vs => simp [ItemKind.types, List.map_flatMap, Fields.map_placedTypes]
  | _ => simp [Function.comp_def]

theorem Member.map_placedTypes (generics : List String) (m : Member) :
    (m.placedTypes generics).map toWrittenType = m.writtenTypes generics := by
  cases m <;> simp [placedTypes, writtenTypes, Function.comp_def]

theorem ImplBlock.map_placedTypes (b : ImplBlock) :
    b.placedTypes.map toWrittenType = b.writtenTypes := by
  simp [placedTypes, writtenTypes, List.map_flatMap, Member.map_placedTypes, Function.comp_def]

/-- **The lines are all that is added.** -/
theorem SourceUnit.map_placedTypes (u : SourceUnit) :
    u.placedTypes.map toWrittenType = u.writtenTypes := by
  simp [placedTypes, writtenTypes, List.map_flatMap, Item.map_placedTypes, ImplBlock.map_placedTypes]

end Lines

/-! ## What is found in them -/

namespace FileCheck

variable {c : FileCheck} {generics : List String}

/-- **Every path of a type resolves without a problem.** -/
def Accepts (c : FileCheck) (x : WrittenType) : Prop :=
  ∀ path ∈ x.type.names, (c.scope.resolvePath c.surroundings x.generics path).2 = []

/-- **What the paths of a type have against them** is of certain kinds, and of a certain package. -/
def Tells (c : FileCheck) (P : DiagnosticKind → String → Prop) (x : WrittenType) : Prop :=
  ∀ path ∈ x.type.names, ∀ problem ∈ (c.scope.resolvePath c.surroundings x.generics path).2,
    P problem.kind c.scope.package

/-- **What is told of a type**: what each of its paths has against it, at the line of the type. -/
def foundIn (c : FileCheck) (x : PlacedType) : List Diagnostic :=
  x.type.names.flatMap fun path => (c.scope.resolvePath c.surroundings x.generics path).2.map
    (·.inFile c.scope.package c.file x.line)

variable {P : DiagnosticKind → String → Prop}

theorem accepts_iff {x : WrittenType} : c.Accepts x ↔ c.Tells (fun _ _ => False) x := by
  simp only [Accepts, Tells, List.eq_nil_iff_forall_not_mem]

theorem foundIn_iff {x : PlacedType} :
    (∀ d ∈ c.foundIn x, P d.kind d.package) ↔ c.Tells P x.toWrittenType := by
  simp only [foundIn, Tells, List.forall_mem_flatMap, List.forall_mem_map, Problem.inFile]

theorem found_resolve (line : Nat) (type : TypeExpr) :
    (c.resolve generics line type).found = c.foundIn ⟨⟨generics, type⟩, line⟩ := by
  simp [resolve, Scope.resolve, Ty.found_traverse, foundIn]

theorem found_resolveAll (line : Nat) (types : List TypeExpr) :
    (c.resolveAll generics line types).found =
      (types.map fun t => ⟨⟨generics, t⟩, line⟩).flatMap c.foundIn := by
  induction types with
  | nil => rfl
  | cons type r ih => simp [resolveAll, found_resolve, ih]

theorem found_namedFields (fs : List Field) :
    (c.namedFields generics fs).found =
      (fs.map fun f => ⟨⟨generics, f.type⟩, f.line⟩).flatMap c.foundIn := by
  induction fs with
  | nil => rfl
  | cons f r ih => simp [namedFields, found_resolve, ih]

theorem found_fields (line : Nat) (fs : Fields) :
    (c.fields generics line fs).found = (fs.placedTypes generics line).flatMap c.foundIn := by
  cases fs with
  | named fs => exact found_namedFields fs
  | tuple types => simp [fields, Fields.placedTypes, found_resolveAll]
  | unit => rfl

theorem found_variants (line : Nat) (vs : List Variant) :
    (c.variants generics line vs).found =
      (vs.flatMap fun v => v.fields.placedTypes generics line).flatMap c.foundIn := by
  induction vs with
  | nil => rfl
  | cons v r ih => simp [variants, found_fields, ih]

theorem found_item (i : Item) : (c.item i).found = i.placedTypes.flatMap c.foundIn := by
  unfold item Item.placedTypes
  cases i.kind with
  | struct fs => simp [found_fields]
  | enum vs => simp [found_variants]
  | _ => simp [found_resolveAll]

theorem found_items (is : List Item) :
    (c.items is).found = (is.flatMap Item.placedTypes).flatMap c.foundIn := by
  induction is with
  | nil => rfl
  | cons i r ih => simp [items, found_item, ih]

theorem found_member (m : Member) :
    (c.member generics m).found = (m.placedTypes generics).flatMap c.foundIn := by
  cases m <;> exact found_resolveAll _ _

theorem found_members (ms : List Member) : (c.members generics ms).found =
    (ms.flatMap (Member.placedTypes generics)).flatMap c.foundIn := by
  induction ms with
  | nil => rfl
  | cons m r ih => simp [members, found_member, ih]

theorem found_impls (bs : List ImplBlock) :
    (c.impls bs).found = (bs.flatMap ImplBlock.placedTypes).flatMap c.foundIn := by
  induction bs with
  | nil => rfl
  | cons b r ih => simp [impls, ImplBlock.placedTypes, found_resolveAll, found_members, ih]

end FileCheck

namespace SourceFile

variable {s : Surroundings} {package : String} {f : SourceFile}

/-- What is told of the types of a file. -/
def foundInTypes (s : Surroundings) (package : String) (f : SourceFile) : List Diagnostic :=
  ((f.checkIn s package).items f.unit.items).found ++ ((f.checkIn s package).impls f.unit.impls).found

/-- **What is told of a file** is told of its entries and of its types. -/
theorem found_check_eq (s : Surroundings) (package : String) (f : SourceFile) :
    (f.check s package).found = (Scope.ofFile s package f).found ++ f.foundInTypes s package := by
  rw [found_check, List.append_assoc]
  rfl

/-- **What is told of the types of a file** is what each of them has against it, in their order. -/
theorem foundInTypes_eq (s : Surroundings) (package : String) (f : SourceFile) :
    f.foundInTypes s package = f.unit.placedTypes.flatMap (f.checkIn s package).foundIn := by
  rw [foundInTypes, FileCheck.found_items, FileCheck.found_impls, SourceUnit.placedTypes,
    List.flatMap_append]

theorem foundInTypes_iff {P : DiagnosticKind → String → Prop} :
    (∀ d ∈ f.foundInTypes s package, P d.kind d.package) ↔
      ∀ x ∈ f.unit.writtenTypes, (f.checkIn s package).Tells P x := by
  rw [foundInTypes_eq, List.forall_mem_flatMap, ← SourceUnit.map_placedTypes, List.forall_mem_map]
  simp only [FileCheck.foundIn_iff]

/-- **When a file has no problems**: its entries have none, and every type in it is accepted. -/
theorem found_check_eq_nil_iff :
    (f.check s package).found = [] ↔ (Scope.ofFile s package f).found = [] ∧
      ∀ x ∈ f.unit.writtenTypes, (f.checkIn s package).Accepts x := by
  simp only [FileCheck.accepts_iff]
  rw [found_check_eq, List.append_eq_nil_iff, ← foundInTypes_iff, ← List.eq_nil_iff_forall_not_mem]

end SourceFile

end ModelPool
