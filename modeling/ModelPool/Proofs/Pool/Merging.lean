import Mathlib.Data.List.Nodup
import ModelPool.Pool.Merge
import ModelPool.Proofs.Results

/-!
# Proofs/Pool/Merging — when fragments go together, and what they make

    fragments ──declare──▸ (model, field, type)
    models    ──have─────▸ (model, field, type)

Fragments go together if each can be merged by itself and no two of them declare a field of one model with
different types.  The models that they make have just the fields that are declared.  Neither depends on
the order of the fragments.

* `mergeFragments_isOk_iff` — when fragments go together.
* `hasField_of_mergeFragments` — the fields of the models.
-/

namespace ModelPool

/-- A relation gives one type to a name at most. -/
def Functional (r : String → ResolvedType → Prop) : Prop := ∀ n a b, r n a → r n b → a = b

/-! ## Fields of one model -/

/-- Some field of a list has the name and the type. -/
def Declares (fs : List ResolvedField) (n : String) (t : ResolvedType) : Prop :=
  ∃ f ∈ fs, f.name = n ∧ f.type = t

theorem declares_append {fs gs : List ResolvedField} {n : String} {t : ResolvedType} :
    Declares (fs ++ gs) n t ↔ Declares fs n t ∨ Declares gs n t := by
  simp only [Declares, List.mem_append, or_and_right, exists_or]

theorem declares_singleton {f : ResolvedField} {n : String} {t : ResolvedType} :
    Declares [f] n t ↔ f.name = n ∧ f.type = t := by
  simp [Declares]

namespace MergedModel

/-- **The model has a field with the name and the type.** -/
def HasField (m : MergedModel) (n : String) (t : ResolvedType) : Prop :=
  ∃ f ∈ m.fields, f.name = n ∧ f.type = t

variable {m m' : MergedModel}

/-- Names that stand once have one type. -/
theorem functional_hasField (h : (m.fields.map MergedField.name).Nodup) : Functional m.HasField := by
  rintro n _ _ ⟨f, hf, rfl, rfl⟩ ⟨g, hg, hname, rfl⟩
  rw [List.inj_on_of_nodup_map h hg hf hname]

theorem field?_eq_none_iff {n : String} : m.field? n = none ↔ ∀ f ∈ m.fields, f.name ≠ n := by
  simp [field?]

theorem hasField_of_field? {n : String} {g : MergedField} (h : m.field? n = some g) :
    m.HasField n g.type :=
  ⟨g, List.mem_of_find?_eq_some h, by simpa using List.find?_some h, rfl⟩

/-- **A model with more declarations of fields.** -/
structure Extends (m : MergedModel) (fs : List ResolvedField) (m' : MergedModel) : Prop where
  name : m'.name = m.name
  docs : m'.docs = m.docs
  packages : m'.packages = m.packages
  nodup : (m'.fields.map MergedField.name).Nodup
  hasField_iff : ∀ n t, m'.HasField n t ↔ m.HasField n t ∨ Declares fs n t

/-- Declarations extend a model one after the other. -/
theorem extends_append_iff {fs gs : List ResolvedField} {m'' : MergedModel}
    (h : m.Extends fs m') : m.Extends (fs ++ gs) m'' ↔ m'.Extends gs m'' := by
  have hfields : ∀ n t, m.HasField n t ∨ Declares (fs ++ gs) n t ↔
      m'.HasField n t ∨ Declares gs n t := by
    intro n t
    rw [h.hasField_iff, declares_append, or_assoc]
  constructor
  · intro h'
    exact ⟨h'.name.trans h.name.symm, h'.docs.trans h.docs.symm, h'.packages.trans h.packages.symm,
      h'.nodup, fun n t => (h'.hasField_iff n t).trans (hfields n t)⟩
  · intro h'
    exact ⟨h'.name.trans h.name, h'.docs.trans h.docs, h'.packages.trans h.packages, h'.nodup,
      fun n t => (h'.hasField_iff n t).trans (hfields n t).symm⟩

/-- One more declaration goes to a model unless it contradicts it. -/
theorem decides_addField (package : String) (f : ResolvedField)
    (h : (m.fields.map MergedField.name).Nodup) :
    Decides (addField package m f) (∀ t, m.HasField f.name t → t = f.type) (m.Extends [f]) := by
  unfold addField
  cases hknown : m.field? f.name with
  | some known =>
    have hhas := hasField_of_field? hknown
    dsimp only
    by_cases htype : known.type = f.type
    · rw [if_pos htype]
      refine ⟨fun t ht => ?_, rfl, rfl, rfl, h, fun n t => ?_⟩
      · rw [← htype]
        exact functional_hasField h _ _ _ ht hhas
      · rw [declares_singleton]
        refine ⟨.inl, fun hor => hor.elim id ?_⟩
        rintro ⟨rfl, rfl⟩
        exact htype ▸ hhas
    · rw [if_neg htype]
      exact fun hall => htype (hall _ hhas)
  | none =>
    have hnew := field?_eq_none_iff.1 hknown
    refine ⟨?_, rfl, rfl, rfl, ?_, fun n t => ?_⟩
    · rintro t ⟨g, hg, hname, -⟩
      exact absurd hname (hnew g hg)
    · rw [List.map_append, List.nodup_append]
      refine ⟨h, List.nodup_singleton _, ?_⟩
      rintro _ hx _ hy rfl
      obtain ⟨g, hg, hname⟩ := List.mem_map.1 hx
      exact hnew g hg (hname.trans (List.mem_singleton.1 hy))
    · rw [declares_singleton]
      simp only [HasField, List.mem_append, List.mem_singleton, or_and_right, exists_or,
        exists_eq_left]

/-- **Fields go to a model exactly if each name keeps one type.** -/
theorem decides_addFields (package : String) (fs : List ResolvedField)
    (h : (m.fields.map MergedField.name).Nodup) :
    Decides (fs.foldlM (addField package) m)
      (Functional fun n t => m.HasField n t ∨ Declares fs n t) (m.Extends fs) := by
  induction fs generalizing m with
  | nil =>
    refine ⟨?_, rfl, rfl, rfl, h, by simp [Declares]⟩
    simpa [Declares] using functional_hasField h
  | cons f r ih =>
    have hrel : ∀ m₁, m.Extends [f] m₁ →
        (fun n t => m.HasField n t ∨ Declares (f :: r) n t) =
          fun n t => m₁.HasField n t ∨ Declares r n t := by
      intro m₁ hext
      funext n t
      rw [hext.hasField_iff, or_assoc, ← declares_append]
      rfl
    rw [List.foldlM_cons]
    have hboth := (decides_addField package f h).bind (f := fun m₁ => r.foldlM (addField package) m₁)
      (d := Functional fun n t => m.HasField n t ∨ Declares (f :: r) n t)
      (Q := m.Extends (f :: r)) fun m₁ hext => by
        rw [hrel m₁ hext]
        exact (ih hext.nodup).imp fun m' hm' => (extends_append_iff hext).2 hm'
    refine hboth.congr ⟨And.right, fun hfun => ⟨fun t ht => ?_, hfun⟩⟩
    exact hfun f.name t f.type (.inl ht) (.inr ⟨f, List.mem_cons_self, rfl, rfl⟩)

/-- **A fragment goes to a model.** -/
theorem decides_add (package : String) (f : ModelFragment)
    (h : (m.fields.map MergedField.name).Nodup) :
    Decides (m.add package f) (Functional fun n t => m.HasField n t ∨ Declares f.fields n t)
      fun m' => m'.name = m.name ∧ (m'.fields.map MergedField.name).Nodup ∧
        ∀ n t, m'.HasField n t ↔ m.HasField n t ∨ Declares f.fields n t := by
  have hfields : (addPackage package { m with docs := joinDocs m.docs f.docs }).fields = m.fields ∧
      (addPackage package { m with docs := joinDocs m.docs f.docs }).name = m.name := by
    unfold addPackage
    split <;> exact ⟨rfl, rfl⟩
  have hhas : (addPackage package { m with docs := joinDocs m.docs f.docs }).HasField =
      m.HasField := by
    funext n t
    simp only [HasField, hfields.1]
  have hadd : Decides (m.add package f) _ _ :=
    decides_addFields package f.fields (by rw [hfields.1]; exact h)
  rw [hhas] at hadd
  refine hadd.imp fun m' hm' => ⟨hm'.name.trans hfields.2, hm'.nodup, fun n t => ?_⟩
  rw [hm'.hasField_iff, hhas]

end MergedModel

/-! ## Fields of several models -/

/-- **Some model of a list has the name**, and a field with the name and the type. -/
def HasField (ms : List MergedModel) (model n : String) (t : ResolvedType) : Prop :=
  ∃ m ∈ ms, m.name = model ∧ m.HasField n t

/-- **Some fragment of a model declares a field** with the name and the type. -/
def DeclaresField (fs : List (String × ModelFragment)) (model n : String) (t : ResolvedType) : Prop :=
  ∃ f ∈ fs, f.2.name = model ∧ Declares f.2.fields n t

/-- Models have names of their own, and so have the fields of each. -/
structure WellNamed (ms : List MergedModel) : Prop where
  names : (ms.map MergedModel.name).Nodup
  fields : ∀ m ∈ ms, (m.fields.map MergedField.name).Nodup

/-- **Models with more fragments.** -/
structure Joins (ms : List MergedModel) (fs : List (String × ModelFragment))
    (ms' : List MergedModel) : Prop where
  wellNamed : WellNamed ms'
  name_iff : ∀ name, name ∈ ms'.map MergedModel.name ↔
    name ∈ ms.map MergedModel.name ∨ ∃ f ∈ fs, f.2.name = name
  hasField_iff : ∀ model n t, HasField ms' model n t ↔
    HasField ms model n t ∨ DeclaresField fs model n t

section Fields

variable {ms : List MergedModel} {m : MergedModel} {fs gs : List (String × ModelFragment)}
  {f : String × ModelFragment} {model n : String} {t : ResolvedType}

theorem hasField_nil : ¬ HasField [] model n t := by
  rintro ⟨m, hm, -⟩
  exact absurd hm List.not_mem_nil

theorem hasField_cons :
    HasField (m :: ms) model n t ↔ (m.name = model ∧ m.HasField n t) ∨ HasField ms model n t :=
  List.exists_mem_cons_iff _ _ _

theorem declaresField_singleton :
    DeclaresField [f] model n t ↔ f.2.name = model ∧ Declares f.2.fields n t := by
  simp [DeclaresField]

theorem declaresField_append :
    DeclaresField (fs ++ gs) model n t ↔ DeclaresField fs model n t ∨ DeclaresField gs model n t := by
  simp only [DeclaresField, List.mem_append, or_and_right, exists_or]

theorem wellNamed_nil : WellNamed [] := ⟨List.nodup_nil, fun _ hm => absurd hm List.not_mem_nil⟩

theorem wellNamed_cons : WellNamed (m :: ms) ↔
    m.name ∉ ms.map MergedModel.name ∧ (m.fields.map MergedField.name).Nodup ∧ WellNamed ms := by
  constructor
  · intro h
    obtain ⟨hm, hms⟩ := List.nodup_cons.1 h.names
    exact ⟨hm, h.fields m List.mem_cons_self, hms,
      fun x hx => h.fields x (List.mem_cons_of_mem _ hx)⟩
  · rintro ⟨hm, hfields, hms⟩
    exact ⟨List.nodup_cons.2 ⟨hm, hms.names⟩, List.forall_mem_cons.2 ⟨hfields, hms.fields⟩⟩

/-- A model has no fields in a list that does not name it. -/
theorem not_hasField (h : model ∉ ms.map MergedModel.name) : ¬ HasField ms model n t := by
  rintro ⟨m, hm, rfl, -⟩
  exact h (List.mem_map_of_mem hm)

/-- **Each field of a model has one type.** -/
theorem WellNamed.functional (h : WellNamed ms) : Functional (HasField ms model) := by
  rintro n _ _ ⟨a, ha, rfl, hta⟩ ⟨b, hb, hname, htb⟩
  obtain rfl := List.inj_on_of_nodup_map h.names hb ha hname
  exact MergedModel.functional_hasField (h.fields b hb) n _ _ hta htb

end Fields

/-! ## Fragments -/

/-- **A fragment goes to the model of its name**, or begins it, unless it contradicts it. -/
theorem decides_addFragment (package : String) (f : ModelFragment) {ms : List MergedModel}
    (h : WellNamed ms) :
    Decides (addFragment package f ms)
      (Functional fun n t => HasField ms f.name n t ∨ Declares f.fields n t)
      (Joins ms [(package, f)]) := by
  induction ms with
  | nil =>
    have hempty : ∀ n t, ¬ (MergedModel.empty f.name).HasField n t := by
      rintro n t ⟨x, hx, -⟩
      exact absurd hx List.not_mem_nil
    have hadd := (MergedModel.empty f.name).decides_add package f List.nodup_nil
    simp only [hempty, hasField_nil] at hadd ⊢
    refine hadd.map fun m ⟨hname, hfields, hhas⟩ => ⟨?_, fun name => ?_, fun model n t => ?_⟩
    · exact wellNamed_cons.2 ⟨List.not_mem_nil, hfields, wellNamed_nil⟩
    · simp [hname, MergedModel.empty, eq_comm]
    · rw [hasField_cons, declaresField_singleton, hhas, hname]
      simp [hasField_nil, MergedModel.empty]
  | cons m r ih =>
    obtain ⟨hm, hfields, hr⟩ := wellNamed_cons.1 h
    unfold addFragment
    split
    · next heq =>
      have hhas : ∀ n t, HasField (m :: r) f.name n t ↔ m.HasField n t := by
        intro n t
        rw [hasField_cons, ← heq, or_iff_left (not_hasField hm), and_iff_right rfl]
      have hadd := m.decides_add package f hfields
      simp only [hhas]
      refine hadd.map fun m' ⟨hname, hfields', hhas'⟩ => ⟨?_, fun name => ?_, fun model n t => ?_⟩
      · exact wellNamed_cons.2 ⟨hname ▸ hm, hfields', hr⟩
      · have hself : (∃ g ∈ [(package, f)], g.2.name = name) ↔ name = f.name := by simp [eq_comm]
        rw [hself, List.map_cons, List.map_cons, List.mem_cons, List.mem_cons, hname, heq]
        tauto
      · rw [hasField_cons, hasField_cons, declaresField_singleton, hhas', hname, heq]
        tauto
    · next hne =>
      have hhas : ∀ n t, HasField (m :: r) f.name n t ↔ HasField r f.name n t := by
        intro n t
        rw [hasField_cons, or_iff_right fun hand => hne hand.1]
      simp only [hhas]
      refine (ih hr).map fun r' hr' => ⟨?_, fun name => ?_, fun model n t => ?_⟩
      · refine wellNamed_cons.2 ⟨?_, hfields, hr'.wellNamed⟩
        rw [hr'.name_iff]
        rintro (hold | ⟨g, hg, hname⟩)
        · exact hm hold
        · obtain rfl := List.mem_singleton.1 hg
          exact hne hname.symm
      · simp only [List.map_cons, List.mem_cons, hr'.name_iff, or_assoc]
      · rw [hasField_cons, hasField_cons, hr'.hasField_iff, or_assoc]

/-- A fragment that can be put together. -/
structure ModelFragment.IsMergeable (f : ModelFragment) : Prop where
  generics : f.generics = []
  shape : f.shape = .named

theorem ModelFragment.decides_check (package : String) (f : ModelFragment) :
    Decides (f.check package) f.IsMergeable fun _ => True := by
  unfold ModelFragment.check
  split
  · next hgenerics => exact fun h => by simp [h.generics] at hgenerics
  · next hgenerics =>
    split
    · next hshape => exact fun h => hshape h.shape
    · next hshape => exact ⟨⟨by simpa using hgenerics, not_not.1 hshape⟩, trivial⟩

/-- **Fragments go together with models**: each of them can, and no two declarations contradict each
other. -/
structure Compatible (ms : List MergedModel) (fs : List (String × ModelFragment)) : Prop where
  mergeable : ∀ f ∈ fs, f.2.IsMergeable
  functional : ∀ model, Functional fun n t => HasField ms model n t ∨ DeclaresField fs model n t

section Compatible

variable {ms ms₁ ms₂ : List MergedModel} {f : String × ModelFragment}
  {r : List (String × ModelFragment)}

/-- Fragments join models one after the other. -/
theorem Joins.cons (h : Joins ms [f] ms₁) (hr : Joins ms₁ r ms₂) : Joins ms (f :: r) ms₂ := by
  refine ⟨hr.wellNamed, fun name => ?_, fun model n t => ?_⟩
  · rw [hr.name_iff, h.name_iff, or_assoc, List.exists_mem_cons_iff]
    simp
  · rw [hr.hasField_iff, h.hasField_iff, or_assoc, ← declaresField_append]
    rfl

/-- What goes together with models and a fragment goes together with what they make. -/
theorem Compatible.cons_iff (hf : f.2.IsMergeable) (h : Joins ms [f] ms₁) :
    Compatible ms (f :: r) ↔ Compatible ms₁ r := by
  have hrel : ∀ model, (fun n t => HasField ms₁ model n t ∨ DeclaresField r model n t) =
      fun n t => HasField ms model n t ∨ DeclaresField (f :: r) model n t := by
    intro model
    funext n t
    rw [h.hasField_iff, or_assoc, ← declaresField_append]
    rfl
  constructor
  · intro hall
    exact ⟨(List.forall_mem_cons.1 hall.mergeable).2, fun model => hrel model ▸ hall.functional model⟩
  · intro hall
    exact ⟨List.forall_mem_cons.2 ⟨hf, hall.mergeable⟩,
      fun model => (hrel model).symm ▸ hall.functional model⟩

/-- What goes together with models goes there at its turn. -/
theorem Compatible.head (h : Compatible ms (f :: r)) :
    Functional fun n t => HasField ms f.2.name n t ∨ Declares f.2.fields n t := by
  have hself : ∀ {n t}, Declares f.2.fields n t → DeclaresField (f :: r) f.2.name n t :=
    fun hn => ⟨f, List.mem_cons_self, rfl, hn⟩
  intro n a b ha hb
  exact h.functional f.2.name n a b (ha.imp_right hself) (hb.imp_right hself)

end Compatible

/-- **Fragments join models exactly if they go together with them.** -/
theorem decides_mergeFragments {ms : List MergedModel} (h : WellNamed ms)
    (fs : List (String × ModelFragment)) :
    Decides (fs.foldlM mergeFragment ms) (Compatible ms fs) (Joins ms fs) := by
  induction fs generalizing ms with
  | nil =>
    have hnone : ∀ model n t, ¬ DeclaresField [] model n t := by simp [DeclaresField]
    refine ⟨⟨by simp, fun model => ?_⟩, h, by simp, fun model n t => by simp [hnone]⟩
    simpa [hnone] using h.functional
  | cons f r ih =>
    have hfirst : Decides (mergeFragment ms f) _ _ :=
      (f.2.decides_check f.1).bind fun _ _ => decides_addFragment f.1 f.2 h
    rw [List.foldlM_cons]
    refine (hfirst.with_condition.bind fun ms₁ hms₁ => ?_).congr
      ⟨And.right, fun hall => ⟨⟨hall.mergeable f List.mem_cons_self, hall.head⟩, hall⟩⟩
    obtain ⟨⟨hf, -⟩, hjoins⟩ := hms₁
    exact ((ih hjoins.wellNamed).congr (Compatible.cons_iff hf hjoins).symm).imp
      fun ms₂ hms₂ => hjoins.cons hms₂

/-! ## Fragments alone -/

section Alone

variable {fs : List (String × ModelFragment)} {ms : List MergedModel}

/-- **When fragments go together**: each of them can, and each field of a model is declared with one
type. -/
theorem mergeFragments_isOk_iff :
    (∃ ms, mergeFragments fs = .ok ms) ↔
      (∀ f ∈ fs, f.2.IsMergeable) ∧ ∀ model, Functional (DeclaresField fs model) := by
  rw [mergeFragments, (decides_mergeFragments wellNamed_nil fs).exists_iff]
  exact ⟨fun h => ⟨h.mergeable, by simpa [hasField_nil] using h.functional⟩,
    fun h => ⟨h.1, by simpa [hasField_nil] using h.2⟩⟩

theorem joins_of_mergeFragments (h : mergeFragments fs = .ok ms) : Joins [] fs ms :=
  (decides_mergeFragments wellNamed_nil fs).of_eq_ok h

/-- **The fields of the models** are those that the fragments declare. -/
theorem hasField_of_mergeFragments (h : mergeFragments fs = .ok ms) {model n : String}
    {t : ResolvedType} : HasField ms model n t ↔ DeclaresField fs model n t := by
  rw [(joins_of_mergeFragments h).hasField_iff, or_iff_right hasField_nil]

/-- And their names are those of the fragments. -/
theorem mem_names_of_mergeFragments (h : mergeFragments fs = .ok ms) {name : String} :
    name ∈ ms.map MergedModel.name ↔ ∃ f ∈ fs, f.2.name = name := by
  rw [(joins_of_mergeFragments h).name_iff, or_iff_right (by simp)]

end Alone

end ModelPool
