import Mathlib.Data.List.Perm.Basic
import ModelPool.Proofs.Pool.Agreement
import ModelPool.Proofs.Pool.Collecting

/-!
# Proofs/Pool/Ordering — merging takes no notice of order

    packages   a: M x y   b: N, M y z        M: x y z from a, b    N
    reordered  b: M y z, N   a: M x y        M: y z x from b, a    N

Whether the models of a program can be put together depends on its fragments alone, whatever package
stands first.  So do the models: another order of packages and fragments orders them otherwise, and
their fields and packages.

* `merge_ordering` — when merging succeeds, and what other orders change.
-/

namespace ModelPool

/-! ## The same models in another order -/

/-- **Two models have the same content**: their fields have the same names and types, and they come
from the same packages, both in any order. -/
structure MergedModel.SameContent (m m' : MergedModel) : Prop where
  name : m.name = m'.name
  fields : (m.fields.map fun x => (x.name, x.type)).Perm (m'.fields.map fun x => (x.name, x.type))
  packages : m.packages.Perm m'.packages

/-- **The same models in any order.** -/
def SameModels (ms ms' : List MergedModel) : Prop :=
  ∃ order, ms.Perm order ∧ List.Forall₂ MergedModel.SameContent order ms'

/-- A list without repetitions is known up to its order by its members. -/
theorem perm_of_mem_iff {α : Type} {l l' : List α} (h : l.Nodup) (h' : l'.Nodup)
    (hmem : ∀ a, a ∈ l ↔ a ∈ l') : l.Perm l' :=
  (List.perm_ext_iff_of_nodup h h').2 hmem

/-- Fields with names of their own are distinct, and so are their names with types. -/
theorem MergedModel.nodup_fields {m : MergedModel} (h : (m.fields.map MergedField.name).Nodup) :
    (m.fields.map fun x => (x.name, x.type)).Nodup :=
  .of_map Prod.fst (by simpa [Function.comp_def] using h)

theorem MergedModel.mem_fields {m : MergedModel} {n : String} {t : ResolvedType} :
    (n, t) ∈ m.fields.map (fun x => (x.name, x.type)) ↔ m.HasField n t := by
  simp [HasField, Prod.ext_iff]

/-- Well named models have the fields of a name in the one model that has it. -/
theorem hasField_iff_of_mem {ms : List MergedModel} (h : WellNamed ms) {m : MergedModel}
    (hm : m ∈ ms) {n : String} {t : ResolvedType} : HasField ms m.name n t ↔ m.HasField n t := by
  constructor
  · rintro ⟨x, hx, hname, hhas⟩
    obtain rfl := List.inj_on_of_nodup_map h.names hx hm hname
    exact hhas
  · exact fun hhas => ⟨m, hm, rfl, hhas⟩

/-- **Fragments in another order make the same models.** -/
theorem sameModels_of_mem_iff {fs gs : List (String × ModelFragment)} {ms ms' : List MergedModel}
    (h : ∀ x, x ∈ gs ↔ x ∈ fs) (hms : mergeFragments fs = .ok ms)
    (hms' : mergeFragments gs = .ok ms') : SameModels ms ms' := by
  have hwell := (joins_of_mergeFragments hms).wellNamed
  have hwell' := (joins_of_mergeFragments hms').wellNamed
  have hnames : (ms'.map MergedModel.name).Perm (ms.map MergedModel.name) :=
    perm_of_mem_iff hwell'.names hwell.names fun name => by
      rw [mem_names_of_mergeFragments hms, mem_names_of_mergeFragments hms']
      simp only [h]
  have hdeclares : DeclaresField gs = DeclaresField fs := by
    funext model n type
    simp only [DeclaresField, h]
  obtain ⟨order, horder, hperm⟩ :=
    (congrFun₂ (List.eq_map_comp_perm MergedModel.name) _ _).mpr hnames
  rw [← List.forall₂_eq_eq_eq, List.forall₂_map_left_iff, List.forall₂_map_right_iff] at horder
  refine ⟨order, hperm.symm, List.forall₂_iff_zip.2 ⟨horder.length_eq.symm, fun {m m'} hpair => ?_⟩⟩
  have hname := ((List.forall₂_iff_zip.1 horder.flip).2 hpair).symm
  obtain ⟨hm, hm'⟩ := List.of_mem_zip hpair
  rw [hperm.mem_iff] at hm
  refine ⟨hname, ?_, ?_⟩
  · refine perm_of_mem_iff (m.nodup_fields (hwell.fields m hm))
      (m'.nodup_fields (hwell'.fields m' hm')) fun x => ?_
    obtain ⟨n, t⟩ := x
    rw [MergedModel.mem_fields, MergedModel.mem_fields, ← hasField_iff_of_mem hwell hm,
      ← hasField_iff_of_mem hwell' hm', hname, hasField_of_mergeFragments hms,
      hasField_of_mergeFragments hms', hdeclares]
  · rw [((collect_mergeFragments hms).each m hm).packages,
      ((collect_mergeFragments hms').each m' hm').packages, hname]
    refine perm_of_mem_iff (nodup_eraseDups _) (nodup_eraseDups _) fun package => ?_
    simp only [List.mem_eraseDups, List.mem_map, List.mem_filter, h]

/-! ## Programs in another order -/

/-- **The same package with its fragments in any order.** -/
structure Package.Reorders (a b : Package) : Prop where
  rest : { b with models := a.models } = a
  models : a.models.Perm b.models

/-- **The same packages in any order**, and the fragments of each. -/
def Program.Reorders (p q : Program) : Prop :=
  ∃ order, p.packages.Perm order ∧ List.Forall₂ Package.Reorders order q.packages

namespace Program

variable {p q : Program} {pool : String}

/-- **The fragments that can be merged**: each of them by itself, and any two declarations of one field
of one model have the same type. -/
structure Mergeable (p : Program) (pool : String) : Prop where
  each : ∀ a f, p.Contributes pool a f → f.generics = [] ∧ f.shape = .named
  agree : ∀ a f b g, p.Contributes pool a f → p.Contributes pool b g → f.name = g.name →
    ∀ x ∈ f.fields, ∀ y ∈ g.fields, x.name = y.name → x.type = y.type

/-- **When the models of a program can be put together.** -/
theorem merge_isOk_iff : (∃ ms, p.merge pool = .ok ms) ↔ p.Mergeable pool := by
  rw [merge, mergeFragments_isOk_iff]
  constructor
  · rintro ⟨heach, hfunctional⟩
    refine ⟨fun a f hf => ?_, fun a f b g hf hg hname x hx y hy hfield => ?_⟩
    · obtain ⟨hgenerics, hshape⟩ := heach (a.importPath, f) (mem_contributions_iff.2 ⟨a, hf, rfl⟩)
      exact ⟨hgenerics, hshape⟩
    · exact hfunctional f.name x.name _ _
        ⟨(a.importPath, f), mem_contributions_iff.2 ⟨a, hf, rfl⟩, rfl, x, hx, rfl, rfl⟩
        ⟨(b.importPath, g), mem_contributions_iff.2 ⟨b, hg, rfl⟩, hname.symm, y, hy, hfield.symm, rfl⟩
  · intro h
    refine ⟨fun f hf => ?_, ?_⟩
    · obtain ⟨a, ha, -⟩ := mem_contributions_iff.1 hf
      obtain ⟨hgenerics, hshape⟩ := h.each a _ ha
      exact ⟨hgenerics, hshape⟩
    · rintro _ _ _ _ ⟨f, hf, rfl, x, hx, rfl, rfl⟩ ⟨g, hg, hname, y, hy, hfield, rfl⟩
      obtain ⟨a, ha, -⟩ := mem_contributions_iff.1 hf
      obtain ⟨b, hb, -⟩ := mem_contributions_iff.1 hg
      exact h.agree a _ b _ ha hb hname.symm x hx y hy hfield.symm

/-- Fragments contribute the same in any order. -/
theorem Reorders.mem_contributions_iff (h : p.Reorders q) {x : String × ModelFragment} :
    x ∈ q.contributions pool ↔ x ∈ p.contributions pool := by
  obtain ⟨order, hperm, hall⟩ := h
  have hlisted : ∀ {a b : Package}, a.Reorders b → a.importPath = b.importPath := by
    intro a b hab
    rw [← hab.rest]
  rw [Program.mem_contributions_iff, Program.mem_contributions_iff]
  constructor
  · rintro ⟨b, ⟨hb, hne, hf⟩, hpath⟩
    obtain ⟨a, ha, hab⟩ := exists_of_forall₂ hall.flip hb
    have hsame := hlisted hab
    exact ⟨a, ⟨hperm.mem_iff.2 ha, hsame ▸ hne, hab.models.mem_iff.2 hf⟩, hsame.trans hpath⟩
  · rintro ⟨a, ⟨ha, hne, hf⟩, hpath⟩
    obtain ⟨b, hb, hab⟩ := exists_of_forall₂ hall (hperm.mem_iff.1 ha)
    have hsame := hlisted hab
    exact ⟨b, ⟨hb, hsame ▸ hne, hab.models.mem_iff.1 hf⟩, hsame.symm.trans hpath⟩

/-- **Merging takes no notice of order.**

The models of a program can be put together exactly if each fragment outside the pool is without type
parameters and has named fields, and any two declarations of one field of one model have the same type.
With its packages in another order, and the fragments of each, a program gives models if it gave some
before, and these are the same but for their order and that of their fields and packages. -/
theorem merge_ordering (p : Program) (pool : String) :
    ((∃ ms, p.merge pool = .ok ms) ↔ p.Mergeable pool) ∧
    ∀ q : Program, p.Reorders q →
      ((∃ ms, q.merge pool = .ok ms) ↔ ∃ ms, p.merge pool = .ok ms) ∧
      ∀ ms ms', p.merge pool = .ok ms → q.merge pool = .ok ms' → SameModels ms ms' := by
  refine ⟨merge_isOk_iff, fun q hq => ⟨⟨?_, ?_⟩, fun ms ms' hms hms' => ?_⟩⟩
  · rintro ⟨ms, hms⟩
    obtain ⟨ms', hms', -⟩ := exists_mergeFragments_of_mem_iff
      (fun x => hq.mem_contributions_iff.symm) hms
    exact ⟨ms', hms'⟩
  · rintro ⟨ms, hms⟩
    obtain ⟨ms', hms', -⟩ := exists_mergeFragments_of_mem_iff
      (fun x => hq.mem_contributions_iff) hms
    exact ⟨ms', hms'⟩
  · exact sameModels_of_mem_iff (fun x => hq.mem_contributions_iff) hms hms'

/-! ### Two orders of one program -/

/-- A fragment with fields of one type. -/
def byteFragment (name : String) (fields : List String) : ModelFragment :=
  ⟨name, [], [], .named, fields.map fun n => ⟨n, .path (.builtin "u8") [], [], 1⟩, .ofPlace [], 1⟩

/-- A package with fragments. -/
def fragmentPackage (name : String) (models : List ModelFragment) : Package :=
  ⟨name, name, .ofPlace [name], [], [], models⟩

/-- A program of two packages and a pool that contradicts them. -/
def inOrder : Program :=
  ⟨.tolerant, ⟨["a"]⟩,
    [fragmentPackage "a" [byteFragment "M" ["x", "y"]],
      fragmentPackage "pool" [{ byteFragment "M" ["x"] with generics := ["T"] }],
      fragmentPackage "b" [byteFragment "N" [], byteFragment "M" ["y", "z"]]], []⟩

/-- The same program from its last package to its first. -/
def outOfOrder : Program :=
  { inOrder with packages :=
    [fragmentPackage "b" [byteFragment "M" ["y", "z"], byteFragment "N" []],
      fragmentPackage "pool" [{ byteFragment "M" ["x"] with generics := ["T"] }],
      fragmentPackage "a" [byteFragment "M" ["x", "y"]]] }

theorem inOrder_reorders : inOrder.Reorders outOfOrder := by
  refine ⟨[_, _, _], .trans (.cons _ (.swap _ _ _)) (.trans (.swap _ _ _) (.cons _ (.swap _ _ _))), ?_⟩
  refine .cons ⟨rfl, .swap _ _ _⟩ (.cons ⟨rfl, .refl _⟩ (.cons ⟨rfl, .refl _⟩ .nil))

/-- Models come in the order of their fragments, which is another one here. -/
theorem merge_ordering_reversed : inOrder.Reorders outOfOrder ∧ ∃ ms ms',
    inOrder.merge "pool" = .ok ms ∧ outOfOrder.merge "pool" = .ok ms' ∧
    ms.map (fun m => (m.name, m.packages, m.fields.map MergedField.name)) =
      [("M", ["a", "b"], ["x", "y", "z"]), ("N", ["b"], [])] ∧
    ms'.map (fun m => (m.name, m.packages, m.fields.map MergedField.name)) =
      [("M", ["b", "a"], ["y", "z", "x"]), ("N", ["b"], [])] ∧ SameModels ms ms' := by
  have hms : inOrder.merge "pool" = .ok
      [⟨"M", [], ["a", "b"], [⟨"x", .path (.builtin "u8") [], [], "a"⟩,
        ⟨"y", .path (.builtin "u8") [], [], "a"⟩, ⟨"z", .path (.builtin "u8") [], [], "b"⟩]⟩,
        ⟨"N", [], ["b"], []⟩] := by decide +kernel
  have hms' : outOfOrder.merge "pool" = .ok
      [⟨"M", [], ["b", "a"], [⟨"y", .path (.builtin "u8") [], [], "b"⟩,
        ⟨"z", .path (.builtin "u8") [], [], "b"⟩, ⟨"x", .path (.builtin "u8") [], [], "a"⟩]⟩,
        ⟨"N", [], ["b"], []⟩] := by decide +kernel
  exact ⟨inOrder_reorders, _, _, hms, hms', rfl, rfl,
    ((merge_ordering inOrder "pool").2 _ inOrder_reorders).2 _ _ hms hms'⟩

end Program

end ModelPool
