import ModelPool.Program.Check
import ModelPool.Proofs.Types.Traversal

/-!
# Proofs/Check/Fragments — the fragments that a package declares

Of what the checker resolves only the fragments are kept.  They are the model structs of the files in
their order, each field with its type as written but for the names, which have become targets.

* `value_items` — the fragments of one file.
* `value_checkAll` — those of a package.
-/

namespace ModelPool

/-- The fields that have names. -/
def Fields.withNames : Fields → List Field
  | .named fs => fs
  | .tuple _ | .unit => []

/-- The fields of a struct. -/
def Item.structFields (i : Item) : Fields :=
  match i.kind with
  | .struct fs => fs
  | _ => .unit

namespace FileCheck

variable (c : FileCheck) (generics : List String)

/-- The target of a path in the file. -/
def target (path : List String) : TypeTarget :=
  (c.scope.resolvePath c.surroundings generics path).1

/-- A field with its type resolved. -/
def field (f : Field) : ResolvedField := ⟨f.name, f.type.map (c.target generics), f.docs, f.line⟩

/-- The fragment that a struct is. -/
def fragment (i : Item) : ModelFragment where
  name := i.name
  docs := i.docs
  generics := i.generics
  shape := i.structFields.shape
  fields := i.structFields.withNames.map (c.field i.generics)
  file := c.file
  line := i.line

/-- A fragment is known from its file and the types of its fields. -/
theorem fragment_congr {c c' : FileCheck} {i : Item} (hfile : c'.file = c.file)
    (htypes : ∀ x ∈ i.structFields.withNames,
      x.type.map (c'.target i.generics) = x.type.map (c.target i.generics)) :
    c'.fragment i = c.fragment i := by
  have hfields : i.structFields.withNames.map (c'.field i.generics) =
      i.structFields.withNames.map (c.field i.generics) := by
    refine List.map_congr_left fun x hx => ?_
    simp only [field, htypes x hx]
  simp only [fragment, hfile, hfields]

/-- **A resolved type is the type with its names replaced by their targets.** -/
theorem value_resolve (line : Nat) (t : TypeExpr) :
    (c.resolve generics line t).value = t.map (c.target generics) :=
  Ty.value_traverse _ t

theorem value_namedFields (fs : List Field) :
    (c.namedFields generics fs).value = fs.map (c.field generics) := by
  induction fs with
  | nil => rfl
  | cons f r ih => simp [namedFields, field, value_resolve, ih]

theorem value_fields (line : Nat) (fs : Fields) :
    (c.fields generics line fs).value = fs.withNames.map (c.field generics) := by
  cases fs with
  | named fs => exact c.value_namedFields generics fs
  | tuple types => rfl
  | unit => rfl

theorem value_item (i : Item) :
    (c.item i).value = if i.isModel then some (c.fragment i) else none := by
  unfold item fragment Item.isModel Item.structFields
  cases i.kind with
  | struct fs => simp [value_fields]
  | _ => rfl

/-- **The fragments of a file.** -/
theorem value_items (is : List Item) :
    (c.items is).value = (is.filter Item.isModel).map c.fragment := by
  induction is with
  | nil => rfl
  | cons i r ih =>
    simp only [items, Reported.value_bind, Reported.value_pure, value_item, ih]
    cases hi : i.isModel with
    | true => simp [hi]
    | false => simp [hi]

end FileCheck

namespace SourceFile

/-- A file as it is checked in a package. -/
def checkIn (f : SourceFile) (s : Surroundings) (package : String) : FileCheck :=
  ⟨s, (Scope.ofFile s package f).value, f.path⟩

/-- **The fragments of a package** are the model structs of its files. -/
theorem value_checkAll (s : Surroundings) (package : String) (files : List SourceFile) :
    (checkAll s package files).value =
      files.flatMap fun f => f.unit.models.map (f.checkIn s package).fragment := by
  induction files with
  | nil => rfl
  | cons f r ih =>
    simp only [checkAll, Reported.value_bind, Reported.value_pure, ih, List.flatMap_cons, check,
      FileCheck.value_items]
    rfl

theorem mem_checkAll {s : Surroundings} {package : String} {files : List SourceFile}
    {m : ModelFragment} : m ∈ (checkAll s package files).value ↔
      ∃ f ∈ files, ∃ i ∈ f.unit.models, (f.checkIn s package).fragment i = m := by
  simp only [value_checkAll, List.mem_flatMap, List.mem_map]

end SourceFile

end ModelPool
