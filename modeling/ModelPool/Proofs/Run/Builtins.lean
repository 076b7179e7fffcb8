import ModelPool.Proofs.Pool.Reloading
import ModelPool.Proofs.Run.Agreement
import ModelPool.Proofs.Run.Filling

/-!
# Proofs/Run/Builtins — names that are known everywhere and models of these names

    c    struct String          ──▸    pool    struct String
    a    struct B, s: String    ──▸    pool    struct B, s: String

A name that is known everywhere is written as it is, and a type of the package comes before it.  So where a
model has such a name, the fields of this type become fields of the model, and the second load of the run has
nothing to say about it.

* `run_rereads_builtins` — what such a name stands for in the pool.
* `not_forall_builtins_kept` — a model that is named like a builtin.
-/

namespace ModelPool

open FileTree Text Emitter

namespace RunConfig

variable {c : RunConfig} {t : FileTree}

namespace TwoPasses

variable (p : TwoPasses c t)

variable (h : (c.run t).state = .done) (hempty : c.emptyPool = false)

include h hempty

/-- **The second load reads the file of a model again.** -/
theorem exists_isReread {m : MergedModel} (hm : m ∈ p.models) (hseen : isHiddenName m.name = false)
    (hcontains : (ofModels c.pool c.poolName p.models).Contains m) :
    ∃ a ∈ p.second.packages, a.importPath = c.pool ∧ ∃ f ∈ a.files,
      (ofModels c.pool c.poolName p.models).IsReread p.after m f := by
  obtain ⟨d, info, hinfo, hfiles⟩ := p.exists_package h hempty
  obtain ⟨f, hf, hreread⟩ := Program.exists_isReread p.first_eq c.isWord_poolName p.sources_eq
    p.models_eq (fun _ => p.isSome_find?)
    (fun source hsource hname => hfiles source (List.mem_cons_of_mem _ hsource) hname)
    (s := p.after) rfl hm hseen hcontains
  exact ⟨_, Program.mem_packages_of_loaded p.second_eq hinfo, rfl, f, hf, hreread⟩

/-- **The types of the pool are the models that are seen**, if the old pool has been found and nothing in the
models leaves its place. -/
theorem declaresType_iff (hfinds : t.FindsDirectory c.poolPath)
    (hcontains : ∀ m ∈ p.models, (ofModels c.pool c.poolName p.models).Contains m) {name : String} :
    p.after.declaresType c.pool name = true ↔ (ofModels c.pool c.poolName p.models).Shows name := by
  obtain ⟨d, -, hfind, -⟩ := p.exists_pool h hempty
  obtain ⟨-, info, hinfo, -⟩ := p.exists_package h hempty
  have hisPool := p.isPool_files h hempty hfind hinfo (.inl rfl) hfinds hcontains
  rw [after, (Program.declares_of_loaded hinfo).2]
  exact hisPool.hasType_iff c.isWord_poolName fun m hm => p.isWord_name hm

end TwoPasses

/-- **What a name that is known everywhere stands for in the pool.**  A run that ends well has read the file of
each model again that is seen and contained.  A field of such a name is written with the name itself.  This
stands for a type of the pool exactly if the pool declares one, and for what is known everywhere exactly if the
pool does not and no package is imported under the name.  If the old pool has been found and all models are
contained, the types that the pool declares are the models that are seen. -/
theorem run_rereads_builtins (h : (c.run t).state = .done) (hempty : c.emptyPool = false) :
    Nonempty (TwoPasses c t) ∧ ∀ p : TwoPasses c t,
      (∀ m ∈ p.models, isHiddenName m.name = false → (ofModels c.pool c.poolName p.models).Contains m →
        ∃ a ∈ p.second.packages, a.importPath = c.pool ∧ ∃ f ∈ a.files,
          (ofModels c.pool c.poolName p.models).Declares m
            ((ofModels c.pool c.poolName p.models).expressions m) f.unit ∧
          ∀ field ∈ m.fields, ∀ name, .builtin name ∈ ResolvedType.targets field.type →
            [name] ∈ ((ofModels c.pool c.poolName p.models).expression field.type).names ∧
            ((f.checkIn p.after c.pool).target [] [name] = .declared c.pool name ↔
              p.after.declaresType c.pool name = true) ∧
            ((f.checkIn p.after c.pool).target [] [name] = .builtin name ↔
              p.after.declaresType c.pool name = false ∧
                ∀ package ∈ (ofModels c.pool c.poolName p.models).importedPackages m,
                  (ofModels c.pool c.poolName p.models).IsBound p.after package →
                    (ofModels c.pool c.poolName p.models).aliasOf package ≠ name)) ∧
      (t.FindsDirectory c.poolPath →
        (∀ m ∈ p.models, (ofModels c.pool c.poolName p.models).Contains m) → ∀ name,
          (p.after.declaresType c.pool name = true ↔
            ∃ m ∈ p.models, isHiddenName m.name = false ∧ m.name = name)) := by
  refine ⟨exists_twoPasses h hempty, fun p => ⟨fun m hm hseen hcontains => ?_, fun hfinds hcontains name =>
    p.declaresType_iff h hempty hfinds hcontains⟩⟩
  obtain ⟨a, ha, hpath, f, hf, hreread⟩ := p.exists_isReread h hempty hm hseen hcontains
  refine ⟨a, ha, hpath, f, hf, hreread.declares, fun field hfield name hname => ?_⟩
  have hbuiltin : isBuiltin name = true := Program.isGrounded_of_merge p.first_eq p.models_eq hm hfield hname
  have hself : name ≠ "Self" := by
    rintro rfl
    exact absurd hbuiltin (by decide)
  refine ⟨?_, hreread.own_iff name hself, hreread.builtin_iff name hbuiltin⟩
  rw [expression, Ty.names_map]
  exact List.mem_map_of_mem (f := (ofModels c.pool c.poolName p.models).segments) hname

/-! ## A model that is named like a builtin -/

/-- Two modules; the second one has a model of the name of a type that the first one uses. -/
def capturingTree : FileTree :=
  .ofTexts [(["a", "x.rs"], "use c;\n#[model]\npub struct B \x7b pub s: String \x7d"),
    (["c", "x.rs"], "#[model]\npub struct String \x7b \x7d")]

/-- The model of the first module. -/
def capturedModel : MergedModel := ⟨"B", [], ["a"], [⟨"s", .path (.builtin "String") [], [], "a"⟩]⟩

/-- The models of both. -/
def capturingModels : List MergedModel := [⟨"String", [], ["c"], []⟩, capturedModel]

/-- **The run ends well** with both models, and nothing in them leaves its place. -/
theorem capturing_run : (globbingConfig.run capturingTree).state = .done ∧
    (∀ p : TwoPasses globbingConfig capturingTree, p.models = capturingModels) ∧
    ∀ m ∈ capturingModels,
      (ofModels globbingConfig.pool globbingConfig.poolName capturingModels).Contains m := by
  obtain ⟨o, ho, hmerge⟩ : ∃ o ∈ globbingConfig.outcome? capturingTree,
      o.first.merge globbingConfig.pool = .ok capturingModels := by decide +kernel
  exact ⟨(done_of_outcome ho rfl).1, fun p => p.models_eq_of_outcome ho rfl hmerge, by decide +kernel⟩

theorem findsDirectory_capturing : capturingTree.FindsDirectory globbingConfig.poolPath :=
  capturingTree.findsDirectory_of_not_up (by decide) (by decide)

/-- The field is a field of the model. -/
theorem run_rereads_builtins_capturing : (globbingConfig.run capturingTree).state = .done ∧
    globbingConfig.emptyPool = false ∧ ∃ p : TwoPasses globbingConfig capturingTree,
      ∃ a ∈ p.second.packages, a.importPath = globbingConfig.pool ∧ ∃ f ∈ a.files,
        (f.checkIn p.after globbingConfig.pool).target [] ["String"] =
          .declared globbingConfig.pool "String" := by
  obtain ⟨hdone, hmodels, hcontains⟩ := capturing_run
  refine ⟨hdone, rfl, ?_⟩
  obtain ⟨⟨p⟩, hall⟩ := run_rereads_builtins hdone rfl
  obtain ⟨hread, htypes⟩ := hall p
  rw [hmodels p] at hread htypes
  obtain ⟨a, ha, hpath, f, hf, -, hfields⟩ := hread capturedModel (by simp [capturingModels]) (by decide)
    (hcontains _ (by simp [capturingModels]))
  have htarget := hfields ⟨"s", .path (.builtin "String") [], [], "a"⟩ List.mem_cons_self "String" (by decide)
  refine ⟨p, a, ha, hpath, f, hf, htarget.2.1.2 ?_⟩
  exact (htypes findsDirectory_capturing hcontains "String").2
    ⟨_, List.mem_cons_self, by decide, rfl⟩

/-- **Not every name that is known everywhere keeps its meaning in the pool**, although the run ends well. -/
theorem not_forall_builtins_kept : ¬ ∀ (c : RunConfig) (t : FileTree) (p : TwoPasses c t),
    (c.run t).state = .done → c.emptyPool = false → ∀ a ∈ p.second.packages, a.importPath = c.pool →
      ∀ f ∈ a.files, ∀ m ∈ p.models, (ofModels c.pool c.poolName p.models).Declares m
          ((ofModels c.pool c.poolName p.models).expressions m) f.unit →
        ∀ field ∈ m.fields, ∀ name, .builtin name ∈ ResolvedType.targets field.type →
          (f.checkIn p.after c.pool).target [] [name] = .builtin name := by
  intro hall
  obtain ⟨hdone, hmodels, hcontains⟩ := capturing_run
  obtain ⟨p⟩ := exists_twoPasses hdone rfl
  replace hmodels := hmodels p
  have hm : capturedModel ∈ p.models := by simp [hmodels, capturingModels]
  obtain ⟨a, ha, hpath, f, hf, hreread⟩ := p.exists_isReread hdone rfl hm (by decide)
    (hmodels ▸ hcontains _ (by simp [capturingModels]))
  have htype : p.after.declaresType globbingConfig.pool "String" = true := by
    rw [p.declaresType_iff hdone rfl findsDirectory_capturing (hmodels ▸ hcontains), hmodels]
    exact ⟨_, List.mem_cons_self, by decide, rfl⟩
  have hkept := hall _ _ p hdone rfl a ha hpath f hf capturedModel hm hreread.declares _
    List.mem_cons_self "String" (by decide)
  have hcaptured := (hreread.own_iff "String" (by decide)).2 htype
  exact absurd (hcaptured.symm.trans hkept) (by simp)

end RunConfig

end ModelPool
