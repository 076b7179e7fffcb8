import ModelPool.Files.Texts
import ModelPool.Proofs.Load.Declared
import ModelPool.Proofs.Pool.ReadBack
import ModelPool.Proofs.Run.Agreement
import ModelPool.Proofs.Run.Filling

/-!
# Proofs/Run/Visibility — what the second load sees of the pool

    Order     order.rs      a source file
    _Order    _order.rs     left out, like every file whose name begins with an underscore

A run ends with a load that checks what has been written.  This load reads the source files of the pool, and
the file of a model is one of them exactly if the model's name does not begin with an underscore.

* `run_lists_generated` — what is seen of the pool.
* `not_forall_generated_listed` — not everything is.
-/

namespace ModelPool

open FileTree Text

namespace RunConfig

variable {c : RunConfig} {t : FileTree}

namespace TwoPasses

variable (p : TwoPasses c t) (h : (c.run t).state = .done) (hempty : c.emptyPool = false)

/-- What is written is a file for each model, and the registry. -/
theorem fst_sources : p.sources.map Prod.fst = p.models.map (fun m => modelFile m.name) ++ [registryFile] := by
  obtain ⟨hnames, -, -⟩ := Program.names_of_poolSources p.first_eq p.sources_eq c.poolPath
  rw [hnames, p.names_eq, List.map_map]
  rfl

include h hempty

/-- **The source files of the pool** are the registry and the files of the models that are not hidden, besides
what has been there. -/
theorem exists_sourceFiles : ∃ files, (c.run t).tree.sourceFiles c.poolPath = .ok files ∧
    c.poolPath.child registryFile ∈ files ∧ ∀ m ∈ p.models,
      (c.poolPath.child (modelFile m.name) ∈ files ↔ isHiddenName m.name = false) := by
  obtain ⟨d, -, hfind, -, hholds, -⟩ := p.exists_pool h hempty
  obtain ⟨files, hlisted⟩ := sourceFiles_of_find hfind
  have hwritten : ∀ {name : String}, name ∈ p.sources.map Prod.fst →
      ∃ bytes, (c.run t).tree.at? (d ++ [name]) = some (.file bytes) := by
    intro name hname
    obtain ⟨source, hsource, rfl⟩ := List.mem_map.1 hname
    exact ⟨_, hholds.file source (List.mem_cons_of_mem _ hsource)⟩
  rw [p.fst_sources] at hwritten
  refine ⟨files, hlisted, ?_, fun m hm => ?_⟩
  · exact (child_mem_sourceFiles_iff hfind hlisted isName_registryFile).2
      ⟨hwritten (List.mem_append_right _ List.mem_cons_self), isSourceName_registryFile⟩
  · rw [child_mem_sourceFiles_iff hfind hlisted (isName_modelFile (p.isWord_name hm)),
      isSourceName_modelFile_iff (p.isWord_name hm)]
    exact and_iff_right (hwritten (List.mem_append_left _ (List.mem_map_of_mem hm)))

/-- **The second load sees a model** that is not hidden, if the model is contained. -/
theorem declaresType_of_contains {m : MergedModel} (hm : m ∈ p.models) (hseen : isHiddenName m.name = false)
    (hcontains : (Emitter.ofModels c.pool c.poolName p.models).Contains m) :
    p.second.DeclaresType c.pool m.name := by
  obtain ⟨d, info, hloaded, hread⟩ := p.exists_package h hempty
  obtain ⟨text, hsource, hdeclares⟩ := p.exists_source hm
  obtain ⟨gs, line, -, hitems⟩ := (hdeclares hcontains).item
  have hname := (isSourceName_modelFile_iff (p.isWord_name hm)).2 hseen
  refine ⟨_, Program.mem_packages_of_loaded p.second_eq hloaded, rfl, _,
    hread _ (List.mem_cons_of_mem _ hsource) hname,
    ⟨m.name, .struct (.named gs), [], [], Emitter.writtenDocs m, true, line⟩, ?_, rfl, rfl⟩
  change _ ∈ (SourceUnit.ofText text).items
  rw [hitems]
  exact List.mem_cons_self

end TwoPasses

/-- **What the second load sees of the pool.**  A run that ends well has written a file for each model that it
tells, and the registry.  In the tree that it leaves, the registry is among the source files of the pool, and
the file of a model is exactly if the model's name is not hidden.  A model that is seen and contained is
declared as a type by the pool of the second program. -/
theorem run_lists_generated (h : (c.run t).state = .done) (hempty : c.emptyPool = false) :
    Nonempty (TwoPasses c t) ∧ ∀ p : TwoPasses c t,
      (c.run t).report.models = p.models.map MergedModel.name ∧
      (c.run t).report.files =
        (p.models.map (fun m => modelFile m.name) ++ [registryFile]).map c.poolPath.child ∧
      (∃ files, (c.run t).tree.sourceFiles c.poolPath = .ok files ∧
        c.poolPath.child registryFile ∈ files ∧ ∀ m ∈ p.models,
          (c.poolPath.child (modelFile m.name) ∈ files ↔ isHiddenName m.name = false)) ∧
      ∀ m ∈ p.models, isHiddenName m.name = false →
        (Emitter.ofModels c.pool c.poolName p.models).Contains m →
          p.second.DeclaresType c.pool m.name := by
  refine ⟨exists_twoPasses h hempty, fun p => ⟨?_, ?_, p.exists_sourceFiles h hempty, fun m hm hseen hcontains =>
    p.declaresType_of_contains h hempty hm hseen hcontains⟩⟩
  · exact (p.writeAll_eq h hempty).2.trans p.names_eq
  · obtain ⟨d, -, -, hfiles, -⟩ := p.exists_pool h hempty
    rw [hfiles, ← p.fst_sources, List.map_map]
    rfl

/-! ## A model with a hidden name -/

/-- A module with two models, the name of the first of which begins with an underscore. -/
def hidingTree : FileTree :=
  .ofTexts [(["a", "x.rs"], "#[model]\nstruct _A { }\n#[model]\nstruct B { }")]

/-- Its models. -/
def hidingModels : List MergedModel := [⟨"_A", [], ["a"], []⟩, ⟨"B", [], ["a"], []⟩]

/-- **The run ends well**, and tells the files of both models, but the pool has only that of the second, in
which nothing leaves its place. -/
theorem hiding_run : ((globbingConfig.run hidingTree).state = .done ∧
      ⟨"/pool/_a.rs"⟩ ∈ (globbingConfig.run hidingTree).report.files ∧
      (globbingConfig.run hidingTree).tree.sourceFiles globbingConfig.poolPath =
        .ok [⟨"/pool/b.rs"⟩, ⟨"/pool/registry.rs"⟩, ⟨"/pool/temp.rs"⟩]) ∧
    (∀ p : TwoPasses globbingConfig hidingTree, p.models = hidingModels) ∧
    ∀ m ∈ hidingModels, isHiddenName m.name = false →
      (Emitter.ofModels globbingConfig.pool globbingConfig.poolName hidingModels).Contains m := by
  obtain ⟨o, ho, hmerge, hfile, hlisted⟩ : ∃ o ∈ globbingConfig.outcome? hidingTree,
      o.first.merge globbingConfig.pool = .ok hidingModels ∧ ⟨"/pool/_a.rs"⟩ ∈ o.output.files ∧
      o.tree.sourceFiles globbingConfig.poolPath =
        .ok [⟨"/pool/b.rs"⟩, ⟨"/pool/registry.rs"⟩, ⟨"/pool/temp.rs"⟩] := by decide +kernel
  obtain ⟨hdone, htree, -, hfiles⟩ := done_of_outcome ho rfl
  exact ⟨⟨hdone, hfiles ▸ hfile, htree ▸ hlisted⟩, fun p => p.models_eq_of_outcome ho rfl hmerge,
    by decide +kernel⟩

/-- The file of the second model is seen, and the model is declared. -/
theorem run_lists_generated_hiding : ∃ p : TwoPasses globbingConfig hidingTree,
    (globbingConfig.run hidingTree).report.models = ["_A", "B"] ∧
      (∃ files, (globbingConfig.run hidingTree).tree.sourceFiles globbingConfig.poolPath = .ok files ∧
        globbingConfig.poolPath.child "b.rs" ∈ files ∧
        globbingConfig.poolPath.child "_a.rs" ∉ files) ∧
      p.second.DeclaresType globbingConfig.pool "B" := by
  obtain ⟨⟨hdone, -, -⟩, hmodels, hcontains⟩ := hiding_run
  obtain ⟨⟨p⟩, hall⟩ := run_lists_generated hdone rfl
  obtain ⟨hnames, -, ⟨files, hfiles, -, hseen⟩, hdeclares⟩ := hall p
  rw [hmodels p] at hnames hseen hdeclares
  have hB : ⟨"B", [], ["a"], []⟩ ∈ hidingModels := List.mem_cons_of_mem _ List.mem_cons_self
  refine ⟨p, hnames, ⟨files, hfiles, (hseen _ hB).2 (by decide), fun hmem => ?_⟩,
    hdeclares _ hB (by decide) (hcontains _ hB (by decide))⟩
  exact absurd ((hseen _ List.mem_cons_self).1 hmem) (by decide)

/-- **Not every file that is written is seen by the load that checks it.** -/
theorem not_forall_generated_listed : ¬ ∀ (c : RunConfig) (t : FileTree) (files : List FilePath),
    (c.run t).state = .done → c.emptyPool = false → (c.run t).tree.sourceFiles c.poolPath = .ok files →
      ∀ file ∈ (c.run t).report.files, file ∈ files := by
  intro hall
  obtain ⟨hdone, hfile, hlisted⟩ := hiding_run.1
  exact absurd (hall _ _ _ hdone rfl hlisted _ hfile) (by decide)

end RunConfig

end ModelPool
