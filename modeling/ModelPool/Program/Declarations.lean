import ModelPool.Program.Basic

/-!
# Program/Declarations — the names that packages declare

A package declares types and other things; a name may be one of each.  A name that is declared again
as the same sort of thing is reported where it is repeated.
-/

namespace ModelPool

/-- **The names that a package declares**, types apart from the rest. -/
structure Declarations where
  types : List String
  values : List String

namespace Declarations

/-- The names of items. -/
def ofItems (items : List Item) : Declarations where
  types := (items.filter (·.kind.isType)).map Item.name
  values := (items.filter (!·.kind.isType)).map Item.name

/-- The names that the files of a package declare. -/
def ofFiles (files : List SourceFile) : Declarations :=
  ofItems (files.flatMap fun f => f.unit.items)

/-- The name is declared as a type. -/
def hasType (d : Declarations) (name : String) : Bool := d.types.contains name

/-- The name is declared. -/
def contains (d : Declarations) (name : String) : Bool :=
  d.types.contains name || d.values.contains name

/-- **A name is declared exactly if an item has it.** -/
theorem contains_ofItems {items : List Item} {name : String} :
    (ofItems items).contains name = true ↔ ∃ i ∈ items, i.name = name := by
  simp only [contains, ofItems, Bool.or_eq_true, List.contains_iff_mem, List.mem_map,
    List.mem_filter]
  constructor
  · rintro (⟨i, ⟨hi, _⟩, hn⟩ | ⟨i, ⟨hi, _⟩, hn⟩) <;> exact ⟨i, hi, hn⟩
  · rintro ⟨i, hi, hn⟩
    cases ht : i.kind.isType
    · exact .inr ⟨i, ⟨hi, by simp [ht]⟩, hn⟩
    · exact .inl ⟨i, ⟨hi, ht⟩, hn⟩

/-- And it is a type exactly if an item that names a type has it. -/
theorem hasType_ofItems {items : List Item} {name : String} :
    (ofItems items).hasType name = true ↔ ∃ i ∈ items, i.kind.isType = true ∧ i.name = name := by
  simp [hasType, ofItems, and_assoc]

end Declarations

/-- The diagnostics of names that are declared again, given what has been declared before. -/
def repeatedNames (package : String) : List (Bool × String) → List (FilePath × Item) → List Diagnostic
  | _, [] => []
  | seen, (file, i) :: r =>
    let key := (i.kind.isType, i.name)
    if key ∈ seen then
      (Problem.declaredTwice i.name).inFile package file i.line :: repeatedNames package seen r
    else repeatedNames package (key :: seen) r

/-- **The diagnostics of a package's names.** -/
def redeclarations (package : String) (files : List SourceFile) : List Diagnostic :=
  repeatedNames package [] (files.flatMap fun f => f.unit.items.map (f.path, ·))

end ModelPool
