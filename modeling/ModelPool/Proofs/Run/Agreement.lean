import ModelPool.Files.Texts
import ModelPool.Proofs.Pool.Agreement
import ModelPool.Proofs.Run.Outcome
import ModelPool.Proofs.Run.PoolImports

/-!
# Proofs/Run/Agreement — what both loads of a run give

The second load reads the pool besides what the first one has read.  As long as nothing else comes in with
it, its models are those of the first load, up to their order, exactly if no field has lost a name.  A name is
lost if a file takes it from a glob, and a glob that stands before this one lends it as well when the pool has
been filled:

    use pool::*;      an empty pool declares nothing      the filled pool declares B
    use b::*;         B is taken from here                B is not taken from here any more

The second load only checks what has been written, so its models go nowhere and such a run ends well.

More comes in with documentation that is read as code, with a package that only the pool imports, or with
files of an old pool that has not been found.

* `run_agrees_iff` — when the models agree.
* `not_forall_run_agrees` — they need not, and no condition can be left out.
-/

namespace ModelPool

open FileTree Text

namespace RunConfig

variable {c : RunConfig} {t : FileTree}

namespace TwoPasses

/-- What the files of the first load can refer to. -/
def before (p : TwoPasses c t) : Surroundings :=
  Program.surroundingsOf p.staged (c.roots p.staged) p.resolution.imports

/-- What the files of the second load can refer to. -/
def after (p : TwoPasses c t) : Surroundings :=
  Program.surroundingsOf (c.run t).tree (c.roots p.staged) (c.strictImports p.resolution.imports)

/-- **The models of both loads agree**: those of the second one can be put together, and have the same fields. -/
def Agrees (p : TwoPasses c t) : Prop :=
  ∃ models, p.second.merge c.pool = .ok models ∧ Agree p.models models

/-- **A field of a model loses a name**: its file takes the name from a glob, and a glob before this one
lends it too when the pool has been filled. -/
def LosesName (p : TwoPasses c t) : Prop :=
  ∃ a ∈ p.first.packages, a.importPath ≠ c.pool ∧ ∃ f ∈ a.files, ∃ i ∈ f.unit.models,
    ∃ x ∈ i.structFields.withNames, ∃ name, [name] ∈ x.type.names ∧
      (Scope.ofFile p.before a.importPath f).value.Shadowed p.before p.after i.generics name

variable (p : TwoPasses c t)

/-! ## Names that are lost -/

/-- A contributing struct that loses a name belongs to a package of the first load. -/
theorem losesName_iff : Program.LosesName
      (Program.walkOf p.staged (c.roots p.staged) p.resolution.imports).loaded p.before p.after c.pool ↔
    p.LosesName := by
  unfold LosesName
  rw [Program.packages_of_load p.first_eq]
  constructor
  · rintro ⟨path, f, i, ⟨hpath, ⟨info, hinfo, hf⟩, hi⟩, hlost⟩
    exact ⟨_, List.mem_map_of_mem hinfo, hpath, f, hf, i, hi, hlost⟩
  · rintro ⟨_, ha, hpath, f, hf, i, hi, hlost⟩
    obtain ⟨⟨path, info⟩, hinfo, rfl⟩ := List.mem_map.1 ha
    exact ⟨path, f, i, ⟨hpath, ⟨info, hinfo, hf⟩, hi⟩, hlost⟩

/-- **Without globs no name is lost.** -/
theorem not_losesName (h : ∀ a ∈ p.first.packages, ∀ f ∈ a.files, ∀ u ∈ f.unit.uses, u.glob = false) :
    ¬ p.LosesName := by
  rintro ⟨a, ha, -, f, hf, i, -, x, -, name, -, hshadowed⟩
  obtain ⟨before, owner, after, hglobs, -⟩ := hshadowed.lost
  have howner : owner ∈ (Scope.ofFile p.before a.importPath f).value.globs := by simp [hglobs]
  obtain ⟨u, hu, hglob⟩ := Scope.mem_globs_iff.1 howner
  exact SourceRoots.classify_ne_glob (h a ha f hf u hu) owner hglob

end TwoPasses

/-! ## Agreement -/

/-- **When the models of both loads agree.**  A run that ends well has loaded twice.  If nothing in the models
of the first load leaves its place when it is written, this load lists the packages that their types are
declared in, and the old pool has been found, the models of the second load can be put together and agree with
those of the first exactly if no field of a model has lost a name. -/
theorem run_agrees_iff (h : (c.run t).state = .done) (hempty : c.emptyPool = false)
    (hroot : t.isDirectory c.frameworkRoot = true ∨ .up ∉ c.poolPath.components) :
    Nonempty (TwoPasses c t) ∧ ∀ p : TwoPasses c t, p.IsContained → p.ListsOwners →
      (p.Agrees ↔ ¬ p.LosesName) := by
  refine ⟨exists_twoPasses h hempty, fun p hcontains howners => ?_⟩
  obtain ⟨d, hreload, hfind⟩ := p.exists_reload hroot
  obtain ⟨models, hmodels, hresolved, -⟩ := poolSources_eq_ok p.sources_eq
  obtain rfl : models = p.models := Except.ok.inj (hmodels.symm.trans p.models_eq)
  have hfinds := findsDirectory_poolPath p.directory hroot
  rw [← p.losesName_iff]
  exact hreload.merge_agrees_iff (p.importsListed h hempty hfind hfinds hcontains howners)
    (p.contributesNothing h hempty hfind hfinds hcontains) p.first_eq p.second_eq p.models_eq hresolved

/-! ## A run that loses a name -/

/-- Two modules, the first of which takes `B` from the second. -/
def globbingTree : FileTree :=
  .ofTexts [(["a", "x.rs"], "use pool::*;\nuse b::*;\n#[model]\npub struct A { pub x: B }"),
    (["b", "x.rs"], "#[model]\npub struct B { }")]

/-- The run for the first module. -/
def globbingConfig : RunConfig :=
  { RunConfig.ofFramework ⟨"/"⟩ with testModule := some ⟨"/a"⟩, poolDir := ⟨"pool"⟩ }

/-- The models of both modules, where `B` is taken from a package. -/
def globbedModels (owner : String) : List MergedModel :=
  [⟨"B", [], ["b"], []⟩, ⟨"A", [], ["a"], [⟨"x", .path (.declared owner "B") [], [], "a"⟩]⟩]

/-- **The run ends well**, and the first load takes `B` from its module, but the second one from the pool. -/
theorem exists_globbing_outcome : ∃ o ∈ globbingConfig.outcome? globbingTree,
    o.first.merge globbingConfig.pool = .ok (globbedModels "b") ∧
    o.second.merge globbingConfig.pool = .ok (globbedModels "pool") ∧
    ∀ m ∈ globbedModels "b",
      ∀ q ∈ (Emitter.ofModels globbingConfig.pool globbingConfig.poolName (globbedModels "b")).importedPackages m,
        q ∈ o.first.packages.map Package.importPath := by
  decide +kernel

theorem globbing_run : (globbingConfig.run globbingTree).state = .done := by
  obtain ⟨o, ho, -⟩ := exists_globbing_outcome
  exact (done_of_outcome ho rfl).1

theorem isContained_globbing (p : TwoPasses globbingConfig globbingTree) : p.IsContained ∧ p.ListsOwners := by
  obtain ⟨o, ho, hfirst, -, hlisted⟩ := exists_globbing_outcome
  rw [p.listsOwners_iff, (p.eq_of_outcome ho rfl).1, TwoPasses.IsContained,
    p.models_eq_of_outcome ho rfl hfirst]
  exact ⟨by decide +kernel, hlisted⟩

/-- The models of both loads differ. -/
theorem not_agrees_globbing (p : TwoPasses globbingConfig globbingTree) : ¬ p.Agrees := by
  rintro ⟨models, hmodels, hagree⟩
  obtain ⟨o, ho, hfirst, hsecond, -⟩ := exists_globbing_outcome
  have hmodels₁ : p.models = globbedModels "b" := p.models_eq_of_outcome ho rfl hfirst
  rw [← (p.eq_of_outcome ho rfl).2] at hsecond
  obtain rfl : models = globbedModels "pool" := Except.ok.inj (hmodels.symm.trans hsecond)
  have hfield : HasField p.models "A" "x" (.path (.declared "b" "B") []) := by
    rw [hmodels₁]
    simp [globbedModels, HasField, MergedModel.HasField]
  have hlost := (hagree.hasField_iff _ _ _).1 hfield
  simp [globbedModels, HasField, MergedModel.HasField] at hlost

theorem globbing_losesName : ∃ p : TwoPasses globbingConfig globbingTree,
    p.IsContained ∧ p.ListsOwners ∧ p.LosesName := by
  obtain ⟨⟨p⟩, hiff⟩ := run_agrees_iff globbing_run rfl (.inr (by decide))
  obtain ⟨hcontains, howners⟩ := isContained_globbing p
  refine ⟨p, hcontains, howners, ?_⟩
  by_contra hkept
  exact not_agrees_globbing p ((hiff p hcontains howners).2 hkept)

/-! ## Runs that read more in their pool -/

/-- **The models of an outcome differ although it has no globs**: those of the second load cannot be put
together, or there is one of another name among them. -/
def Differs (c : RunConfig) (o : RunOutcome) (models : List MergedModel) : Prop :=
  o.first.merge c.pool = .ok models ∧
    (∀ a ∈ o.first.packages, ∀ f ∈ a.files, ∀ u ∈ f.unit.uses, u.glob = false) ∧
    ∀ others ∈ (o.second.merge c.pool).toOption, ∃ m ∈ others, m.name ∉ models.map MergedModel.name

instance (c : RunConfig) (o : RunOutcome) (models : List MergedModel) : Decidable (c.Differs o models) :=
  inferInstanceAs (Decidable (_ ∧ _ ∧ _))

/-- A run with such an outcome ends well and loses no name, and its models do not agree. -/
theorem exists_not_agrees {models : List MergedModel} (h : ∃ o ∈ c.outcome? t, c.Differs o models)
    (hempty : c.emptyPool = false) : (c.run t).state = .done ∧
      ∃ p : TwoPasses c t, p.models = models ∧ ¬ p.LosesName ∧ ¬ p.Agrees := by
  obtain ⟨o, ho, hmodels, hglobs, hothers⟩ := h
  have hdone := (done_of_outcome ho hempty).1
  obtain ⟨p⟩ := exists_twoPasses hdone hempty
  obtain ⟨hfirst, hsecond⟩ := p.eq_of_outcome ho hempty
  obtain rfl := p.models_eq_of_outcome ho hempty hmodels
  refine ⟨hdone, p, rfl, p.not_losesName (hfirst ▸ hglobs), ?_⟩
  rintro ⟨others, hmerge, hagree⟩
  rw [hsecond] at hmerge
  obtain ⟨m, hm, hnew⟩ := hothers others (toOption_eq_some_iff.2 hmerge)
  exact hnew ((hagree.name_iff m.name).2 (List.mem_map_of_mem hm))

/-- A module with a line in its documentation that imports another one, when it is written by itself. -/
def splicingTree : FileTree :=
  .ofTexts [(["a", "x.rs"], "/** first\nuse c; */\n#[model]\nstruct A { x: u8 }"),
    (["c", "x.rs"], "#[model]\nstruct C { }")]

/-- Its model. -/
def splicedModel : MergedModel :=
  ⟨"A", ["first\nuse c;"], ["a"], [⟨"x", .path (.builtin "u8") [], [], "a"⟩]⟩

theorem exists_splicing_outcome : ∃ o ∈ globbingConfig.outcome? splicingTree,
    globbingConfig.Differs o [splicedModel] := by
  decide +kernel

/-- A package that names itself by a path which leads to another one. -/
def straddlingTree : FileTree :=
  .ofTexts [(["fw", "b", "x.rs"], "use m::a;"), (["m", "a", "x.rs"], "use a;\n#[model]\nstruct A { x: a::B }"),
    (["fw", "a", "x.rs"], "struct B;\n#[model]\nstruct C { }")]

/-- The run for the package that imports it, with two roots that it stands under. -/
def straddlingConfig : RunConfig :=
  { globbingConfig with
    frameworkRoot := ⟨"/fw"⟩
    testModule := some ⟨"/fw/b"⟩
    sourceRoots := [⟨"/m"⟩, ⟨"/"⟩] }

/-- Its model. -/
def straddledModel : MergedModel :=
  ⟨"A", [], ["m::a"], [⟨"x", .path (.declared "a" "B") [], [], "m::a"⟩]⟩

theorem exists_straddling_outcome : ∃ o ∈ straddlingConfig.outcome? straddlingTree,
    straddlingConfig.Differs o [straddledModel] := by
  decide +kernel

/-- A module, and an old pool that imports another one. -/
def keepingTree : FileTree :=
  .ofTexts [(["a", "x.rs"], "#[model]\nstruct A { x: u8 }"), (["pool", "old.rs"], "use c;"),
    (["c", "x.rs"], "#[model]\nstruct C { }")]

/-- The run for the module with a framework root that is only there when the pool has been staged. -/
def keepingConfig : RunConfig := { globbingConfig with frameworkRoot := ⟨"/x/.."⟩ }

/-- Its model. -/
def keptModel : MergedModel := { splicedModel with docs := [] }

theorem exists_keeping_outcome : ∃ o ∈ keepingConfig.outcome? keepingTree,
    keepingConfig.Differs o [keptModel] := by
  decide +kernel

/-- **The models of a run that ends well need not agree**, even where no name is lost, if what is written
leaves its place, if a package is listed only for the pool, or if the old pool has not been found. -/
theorem not_forall_run_agrees :
    (¬ ∀ (c : RunConfig) (t : FileTree), (c.run t).state = .done → c.emptyPool = false →
      ∀ p : TwoPasses c t, p.Agrees) ∧
    (¬ ∀ (c : RunConfig) (t : FileTree), (c.run t).state = .done → c.emptyPool = false →
      t.isDirectory c.frameworkRoot = true ∨ .up ∉ c.poolPath.components →
        ∀ p : TwoPasses c t, p.ListsOwners → ¬ p.LosesName → p.Agrees) ∧
    (¬ ∀ (c : RunConfig) (t : FileTree), (c.run t).state = .done → c.emptyPool = false →
      t.isDirectory c.frameworkRoot = true ∨ .up ∉ c.poolPath.components →
        ∀ p : TwoPasses c t, p.IsContained → ¬ p.LosesName → p.Agrees) ∧
    (¬ ∀ (c : RunConfig) (t : FileTree), (c.run t).state = .done → c.emptyPool = false →
      ∀ p : TwoPasses c t, p.IsContained → p.ListsOwners → ¬ p.LosesName → p.Agrees) := by
  refine ⟨fun hall => ?_, fun hall => ?_, fun hall => ?_, fun hall => ?_⟩
  · obtain ⟨p⟩ := exists_twoPasses globbing_run rfl
    exact not_agrees_globbing p (hall _ _ globbing_run rfl p)
  · obtain ⟨hdone, p, hmodels, hkept, hnot⟩ := exists_not_agrees exists_splicing_outcome rfl
    refine hnot (hall _ _ hdone rfl (.inr (by decide)) p (p.listsOwners_of_forall ?_) hkept)
    rw [hmodels]
    decide +kernel
  · obtain ⟨hdone, p, hmodels, hkept, hnot⟩ := exists_not_agrees exists_straddling_outcome rfl
    refine hnot (hall _ _ hdone rfl (.inr (by decide)) p ?_ hkept)
    rw [TwoPasses.IsContained, hmodels]
    decide +kernel
  · obtain ⟨hdone, p, hmodels, hkept, hnot⟩ := exists_not_agrees exists_keeping_outcome rfl
    refine hnot (hall _ _ hdone rfl p ?_ (p.listsOwners_of_forall ?_) hkept)
    · rw [TwoPasses.IsContained, hmodels]
      decide +kernel
    · rw [hmodels]
      decide +kernel

end RunConfig

end ModelPool
