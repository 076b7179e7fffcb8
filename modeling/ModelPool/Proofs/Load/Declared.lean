import ModelPool.Proofs.Check.Targets
import ModelPool.Proofs.Load.Counted
import ModelPool.Proofs.Load.Strict

/-!
# Proofs/Load/Declared — what the types of a strict program stand for

    pub x: B         B is a type of the package, or lent by a glob     a type
    pub x: p::B      p is loaded                                       a type
    use p::f;
    pub x: f         p declares f                                      anything that p declares

A strict load has checked that every declaration that the type of a field stands for is there.  That it is
the declaration of a type has been checked on every way but one: of an item that a `use` entry imports, the
checker asks only whether it is declared.

* `declaresType_or_takesItem` — what one target stands for.
* `load_strict_declares_targets` — when every target is a type.
-/

namespace ModelPool

open Text

/-- **A package declares a name as a type.** -/
def Package.DeclaresType (a : Package) (name : String) : Prop :=
  ∃ f ∈ a.files, ∃ i ∈ f.unit.items, i.kind.isType = true ∧ i.name = name

theorem Package.DeclaresType.declares {a : Package} {name : String} (h : a.DeclaresType name) :
    a.Declares name := by
  obtain ⟨f, hf, i, hi, -, hname⟩ := h
  exact ⟨f, hf, i, hi, hname⟩

namespace Program

/-- **The program has a package of this path** that declares the name as a type. -/
def DeclaresType (p : Program) (owner name : String) : Prop :=
  ∃ a ∈ p.packages, a.importPath = owner ∧ a.DeclaresType name

/-- **A target stands in a field of a model.** -/
def HasTarget (p : Program) (target : TypeTarget) : Prop :=
  ∃ a ∈ p.packages, ∃ m ∈ a.models, ∃ x ∈ m.fields, target ∈ ResolvedType.targets x.type

/-- **A field of a model takes an item**: it names the item by the one segment under which an entry of its
file imports it. -/
def TakesItem (t : FileTree) (roots : SourceRoots) (p : Program) (owner name : String) : Prop :=
  ∃ a ∈ p.packages, ∃ f ∈ a.files, ∃ i ∈ f.unit.models, ∃ x ∈ i.structFields.withNames,
    ∃ n, [n] ∈ x.type.names ∧ n ≠ "Self" ∧ n ∉ i.generics ∧ n ≠ "_" ∧
      ∃ u ∈ f.unit.uses, u.bindingName? = some n ∧ roots.classify t u = .item owner name

section Load

variable {t : FileTree} {roots : SourceRoots} {imports : ImportSet} {mode : LoadMode} {p : Program}

theorem declaresType_of_surroundings (h : load t roots imports mode = .ok p) {owner name : String}
    (hd : (surroundingsOf t roots imports).declaresType owner name = true) :
    p.DeclaresType owner name := by
  unfold Surroundings.declaresType at hd
  split at hd
  · next d hdeclarations =>
    obtain ⟨info, hinfo, rfl⟩ := Option.map_eq_some_iff.1 hdeclarations
    obtain ⟨i, hi, htype, hname⟩ := Declarations.hasType_ofItems.1 hd
    obtain ⟨f, hf, hif⟩ := List.mem_flatMap.1 hi
    exact ⟨_, mem_packages_of_loaded h (lookup_loaded_iff.1 hinfo), rfl, f, hf, i, hif, htype, hname⟩
  · simp at hd

/-- **The targets of the models** are those of the paths in their fields. -/
theorem hasTarget_iff (h : load t roots imports mode = .ok p) {target : TypeTarget} :
    p.HasTarget target ↔ ∃ x ∈ (walkOf t roots imports).loaded, ∃ f ∈ x.2.files, ∃ i ∈ f.unit.models,
      ∃ y ∈ i.structFields.withNames, ∃ path ∈ y.type.names,
        (f.checkIn (surroundingsOf t roots imports) x.1).target i.generics path = target := by
  unfold HasTarget
  rw [packages_of_load h]
  constructor
  · rintro ⟨_, ha, m, hm, field, hfield, htarget⟩
    obtain ⟨x, hx, rfl⟩ := List.mem_map.1 ha
    obtain ⟨f, hf, i, hi, rfl⟩ := SourceFile.mem_checkAll.1 hm
    obtain ⟨y, hy, rfl⟩ := List.mem_map.1 hfield
    rw [ResolvedType.targets, FileCheck.field, Ty.names_map] at htarget
    obtain ⟨path, hpath, rfl⟩ := List.mem_map.1 htarget
    exact ⟨x, hx, f, hf, i, hi, y, hy, path, hpath, rfl⟩
  · rintro ⟨x, hx, f, hf, i, hi, y, hy, path, hpath, rfl⟩
    refine ⟨_, List.mem_map_of_mem hx, _, SourceFile.mem_checkAll.2 ⟨f, hf, i, hi, rfl⟩, _,
      List.mem_map_of_mem hy, ?_⟩
    rw [ResolvedType.targets, FileCheck.field, Ty.names_map]
    exact List.mem_map_of_mem hpath

end Load

section Strict

variable {t : FileTree} {roots : SourceRoots} {imports : ImportSet} {p : Program}
  {owner name : String}

/-- **What a target stands for** is declared as a type, unless it is an item that a field takes. -/
theorem declaresType_or_takesItem (h : load t roots imports .strict = .ok p)
    (htarget : p.HasTarget (.declared owner name)) :
    p.DeclaresType owner name ∨ p.TakesItem t roots owner name := by
  obtain ⟨x, hx, f, hf, i, hi, y, hy, path, hpath, htarget⟩ := (hasTarget_iff h).1 htarget
  obtain ⟨huses, htypes⟩ := SourceFile.found_check_eq_nil_iff.1 (found_check_of_strict h hx hf)
  have hwritten : ⟨i.generics, y.type⟩ ∈ f.unit.writtenTypes :=
    List.mem_append_left _ (List.mem_flatMap.2
      ⟨i, List.mem_of_mem_filter hi, Item.mem_writtenTypes_of_mem_structFields hy⟩)
  rcases Scope.declaresType_or_item (htypes _ hwritten path hpath) htarget with
    htype | ⟨n, rfl, hself, hgeneric, hbound⟩
  · exact .inl (declaresType_of_surroundings h htype)
  · obtain ⟨hlone, u, hu, hname, hitem⟩ := (Scope.binding?_eq_item_iff huses).1 hbound
    exact .inr ⟨_, mem_packages_of_loaded h hx, f, hf, i, hi, y, hy, n, hpath, hself, hgeneric, hlone, u,
      hu, hname, hitem⟩

/-- An item that a field takes is a target, whatever it is. -/
theorem hasTarget_of_takesItem (h : load t roots imports .strict = .ok p)
    (htakes : p.TakesItem t roots owner name) : p.HasTarget (.declared owner name) := by
  obtain ⟨a, ha, f, hf, i, hi, y, hy, n, hpath, hself, hgeneric, hlone, u, hu, hname, hitem⟩ := htakes
  rw [packages_of_load h] at ha
  obtain ⟨x, hx, rfl⟩ := List.mem_map.1 ha
  obtain ⟨huses, -⟩ := SourceFile.found_check_eq_nil_iff.1 (found_check_of_strict h hx hf)
  have hbound := (Scope.binding?_eq_item_iff huses).2 ⟨hlone, u, hu, hname, hitem⟩
  exact (hasTarget_iff h).2 ⟨x, hx, f, hf, i, hi, y, hy, [n], hpath,
    Scope.target_of_item hself hgeneric hbound⟩

/-- **What the types of a strict program stand for.**  Each declaration that a field of a model stands for
is declared by a loaded package of that path.  It is declared as a type unless the field takes an item:
the targets of one name are types exactly if the items of this name that fields take are types. -/
theorem load_strict_declares_targets (h : load t roots imports .strict = .ok p) (owner name : String) :
    (p.HasTarget (.declared owner name) →
      ∃ a ∈ p.packages, a.importPath = owner ∧ a.Declares name) ∧
    ((p.HasTarget (.declared owner name) → p.DeclaresType owner name) ↔
      (p.TakesItem t roots owner name → p.DeclaresType owner name)) := by
  refine ⟨fun htarget => ?_, ?_, ?_⟩
  · rcases declaresType_or_takesItem h htarget with ⟨a, ha, hpath, hdeclares⟩ | htakes
    · exact ⟨a, ha, hpath, hdeclares.declares⟩
    · obtain ⟨a, ha, f, hf, -, -, -, -, -, -, -, -, -, u, hu, -, hitem⟩ := htakes
      rw [packages_of_load h] at ha
      obtain ⟨x, hx, rfl⟩ := List.mem_map.1 ha
      have hresolves := SourceFile.resolves_of_found_check (found_check_of_strict h hx hf) u hu
      exact exists_declares h (hresolves.declares hitem)
  · exact fun htypes htakes => htypes (hasTarget_of_takesItem h htakes)
  · exact fun htypes htarget => (declaresType_or_takesItem h htarget).elim id htypes

end Strict

/-! ## A function in the place of a type -/

/-- Two packages, the first of which takes a function of the second for a type. -/
def helperTree : FileTree :=
  .ofTexts [(["a", "x.rs"], "use b::helper;\n#[model]\npub struct A { pub x: helper }"),
    (["b", "x.rs"], "pub fn helper() {}")]

/-- The load says nothing of it. -/
theorem exists_helper_program : ∃ p, load helperTree rootOnly ⟨["a"]⟩ .strict = .ok p ∧
    p.HasTarget (.declared "b" "helper") ∧ ¬ p.DeclaresType "b" "helper" := by
  refine exists_load (by simp) ?_
  unfold HasTarget DeclaresType Package.DeclaresType
  decide +kernel

/-- What the field stands for is declared, and it is an item that the field takes. -/
theorem load_strict_declares_targets_helper :
    ∃ p, load helperTree rootOnly ⟨["a"]⟩ .strict = .ok p ∧
      (∃ a ∈ p.packages, a.importPath = "b" ∧ a.Declares "helper") ∧
      p.TakesItem helperTree rootOnly "b" "helper" := by
  obtain ⟨p, hp, htarget, htype⟩ := exists_helper_program
  obtain ⟨hdeclared, htypes⟩ := load_strict_declares_targets hp "b" "helper"
  refine ⟨p, hp, hdeclared htarget, by_contra fun htakes => htype ?_⟩
  exact htypes.2 (fun h => absurd h htakes) htarget

/-- **Not every target of a strict program is declared as a type.** -/
theorem not_forall_targets_types : ¬ ∀ (t : FileTree) (roots : SourceRoots) (imports : ImportSet)
    (p : Program), load t roots imports .strict = .ok p → ∀ owner name,
      p.HasTarget (.declared owner name) → p.DeclaresType owner name := by
  intro htypes
  obtain ⟨p, hp, htarget, htype⟩ := exists_helper_program
  exact htype (htypes _ _ _ p hp "b" "helper" htarget)

end Program

end ModelPool
