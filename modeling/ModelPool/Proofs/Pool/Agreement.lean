import ModelPool.Proofs.Pool.Contributions

/-!
# Proofs/Pool/Agreement — the models of two loads

When a load is repeated in a tree that has grown, the models can be put together again, with the same
fields of the same types, exactly if no field of a contributing struct has lost a name to a glob that
stands earlier.

* `Reload.merge_agrees_iff` — when the models agree.
-/

namespace ModelPool

/-- **Models agree** when they have the same names, and fields of the same names and types. -/
structure Agree (ms ms' : List MergedModel) : Prop where
  name_iff : ∀ name, name ∈ ms.map MergedModel.name ↔ name ∈ ms'.map MergedModel.name
  hasField_iff : ∀ model n t, HasField ms model n t ↔ HasField ms' model n t

/-- All targets of the fields of models stand for something. -/
def AllResolved (ms : List MergedModel) : Prop :=
  ∀ model n type, HasField ms model n type → ∀ target ∈ ResolvedType.targets type, target.IsResolved

/-- Whether fragments go together depends only on which they are. -/
theorem exists_mergeFragments_of_mem_iff {fs gs : List (String × ModelFragment)}
    (h : ∀ x, x ∈ gs ↔ x ∈ fs) {ms : List MergedModel} (hms : mergeFragments fs = .ok ms) :
    ∃ ms', mergeFragments gs = .ok ms' ∧ Agree ms ms' := by
  have hdeclares : DeclaresField gs = DeclaresField fs := by
    funext model n type
    simp only [DeclaresField, h]
  obtain ⟨hmergeable, hfunctional⟩ := mergeFragments_isOk_iff.1 ⟨ms, hms⟩
  obtain ⟨ms', hms'⟩ := mergeFragments_isOk_iff.2
    ⟨fun x hx => hmergeable x ((h x).1 hx), fun model => hdeclares ▸ hfunctional model⟩
  refine ⟨ms', hms', fun name => ?_, fun model n type => ?_⟩
  · rw [mem_names_of_mergeFragments hms, mem_names_of_mergeFragments hms']
    simp only [h]
  · rw [hasField_of_mergeFragments hms, hasField_of_mergeFragments hms', hdeclares]

namespace Program

/-- **A field of a contributing struct loses a name** to a glob that stands before the one that the name
is taken from. -/
def LosesName (loaded : List (String × PackageInfo)) (s s' : Surroundings) (pool : String) : Prop :=
  ∃ path f i, Contributed loaded pool path f i ∧ ∃ x ∈ i.structFields.withNames, ∃ name,
    [name] ∈ x.type.names ∧ (f.checkIn s path).scope.Shadowed s s' i.generics name

namespace Reload

variable {d : Place} {t u : FileTree} {roots : SourceRoots} {imports imports' : ImportSet}
  {pool : String} {mode mode' : LoadMode} {p q : Program} {models : List MergedModel}

/-- **The models of a second load agree with those of the first exactly if no name is lost.** -/
theorem merge_agrees_iff (h : Reload d t u imports imports' pool)
    (hlisted : ImportsListed d pool (walkOf t roots imports).loaded (walkOf u roots imports').loaded)
    (hnothing : ContributesNothing d pool (walkOf u roots imports').loaded)
    (hp : load t roots imports mode = .ok p) (hq : load u roots imports' mode' = .ok q)
    (hmodels : p.merge pool = .ok models) (hresolved : AllResolved models) :
    (∃ models', q.merge pool = .ok models' ∧ Agree models models') ↔
      ¬ LosesName (walkOf t roots imports).loaded (surroundingsOf t roots imports)
        (surroundingsOf u roots imports') pool := by
  have hfields : ∀ {path f i}, Contributed (walkOf t roots imports).loaded pool path f i →
      ∀ x ∈ i.structFields.withNames, HasField models i.name x.name
        (x.type.map ((fileCheck t roots imports path f).target i.generics)) := by
    intro path f i hi x hx
    rw [hasField_of_mergeFragments hmodels, declaresField_contributions hp]
    exact ⟨path, f, i, hi, rfl, x, hx, rfl, rfl⟩
  have htype : ∀ {path f i}, Contributed (walkOf t roots imports).loaded pool path f i →
      ∀ x ∈ i.structFields.withNames,
        (x.type.map ((fileCheck u roots imports' path f).target i.generics) =
          x.type.map ((fileCheck t roots imports path f).target i.generics) ↔
        ∀ name, [name] ∈ x.type.names → ¬ (fileCheck t roots imports path f).scope.Shadowed
          (surroundingsOf t roots imports) (surroundingsOf u roots imports') i.generics name) :=
    fun hi x hx => type_eq_iff (h.extends_of_contributed hnothing hi)
      (hresolved _ _ _ (hfields hi x hx))
  constructor
  · rintro ⟨models', hmodels', hagree⟩ ⟨path, f, i, hi, x, hx, name, hname, hshadowed⟩
    refine (htype hi x hx).1 ?_ name hname hshadowed
    -- the field has its second type in the first models as well, where it has but one
    have hsecond : HasField models i.name x.name
        (x.type.map ((fileCheck u roots imports' path f).target i.generics)) := by
      rw [hagree.hasField_iff, hasField_of_mergeFragments hmodels', declaresField_contributions hq]
      exact ⟨path, f, i, (h.contributed_iff hlisted hnothing).2 hi, rfl, x, hx, rfl, rfl⟩
    exact (joins_of_mergeFragments hmodels).wellNamed.functional _ _ _ hsecond (hfields hi x hx)
  · intro hkept
    refine exists_mergeFragments_of_mem_iff (fun x => ?_) hmodels
    obtain ⟨path, m⟩ := x
    rw [mem_contributions hp, mem_contributions hq]
    refine exists_congr fun f => exists_congr fun i => ?_
    rw [h.contributed_iff hlisted hnothing]
    refine and_congr_right fun hi => ?_
    have hsame : (fileCheck u roots imports' path f).fragment i =
        (fileCheck t roots imports path f).fragment i :=
      FileCheck.fragment_congr (by rw [file_fileCheck, file_fileCheck])
        fun x hx => (htype hi x hx).2 fun name hname hshadowed =>
          hkept ⟨path, f, i, hi, x, hx, name, hname, hshadowed⟩
    rw [hsame]

end Reload

end Program

end ModelPool
