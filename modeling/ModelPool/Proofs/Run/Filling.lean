import ModelPool.Proofs.Load.Strict
import ModelPool.Proofs.Pool.Contents
import ModelPool.Proofs.Pool.Location
import ModelPool.Proofs.Run.Passes

/-!
# Proofs/Run/Filling — the pool that a run leaves

    staged           placeholder
    after the run    placeholder, a file for each model, registry     ──second load──▸  the pool's package

The directory of the pool holds what has been written, and the second load reads its package from there: it
is asked for the import path of the pool, which leads to this directory.

* `TwoPasses.exists_pool` — what the directory of the pool holds.
* `TwoPasses.exists_package` — the package that the second load reads from it.
-/

namespace ModelPool

open FileTree Text

namespace RunConfig.TwoPasses

variable {c : RunConfig} {t : FileTree} (p : TwoPasses c t)

/-- The models are those that are named and written. -/
theorem names_eq : p.names = p.models.map MergedModel.name := by
  obtain ⟨models, files, hmodels, hnames, -⟩ := exists_models_of_poolSources p.sources_eq
  obtain rfl : models = p.models := Except.ok.inj (hmodels.symm.trans p.models_eq)
  exact hnames

/-- **The second load meets the tree of the first one**, where the directory of the pool has been filled. -/
theorem fills : Fills (t.leads c.poolPath) p.staged (c.run t).tree := by
  have hstaged := (consists_of_stage (endsInName_poolPath p.directory) p.stage_eq).1
  obtain ⟨-, hnames, -⟩ := Program.names_of_poolSources p.first_eq p.sources_eq c.poolPath
  exact p.tree_eq ▸ fills_writeAll hstaged hnames

/-- Packages that the first load finds are found by the second one. -/
theorem isSome_find? {path : String} (h : ((c.roots p.staged).find? p.staged path).isSome = true) :
    ((c.roots p.staged).find? (c.run t).tree path).isSome = true :=
  p.fills.isSome_find? h

variable (h : (c.run t).state = .done) (hempty : c.emptyPool = false)

include h hempty

/-- **What the directory of the pool holds** after a run: the placeholder and the sources.  It holds no other
files if the old pool has been found. -/
theorem exists_pool : ∃ d, p.staged.find c.poolPath = .ok (d, .directory) ∧
    (c.run t).tree.find c.poolPath = .ok (d, .directory) ∧
    (c.run t).report.files = p.sources.map (fun source => c.poolPath.child source.1) ∧
    (c.run t).tree.Holds d (placeholderEntry c.poolPath :: p.sources) ∧
    (t.FindsDirectory c.poolPath →
      (c.run t).tree.HoldsOnly d (placeholderEntry c.poolPath :: p.sources)) := by
  have hend := endsInName_poolPath p.directory
  obtain ⟨hd, hstaged⟩ := consists_of_stage hend p.stage_eq
  obtain ⟨-, hnames, hnodup⟩ := Program.names_of_poolSources p.first_eq p.sources_eq c.poolPath
  obtain ⟨hfind, hfiles, hholds, hholdsOnly⟩ :=
    @holds_writeAll _ _ _ [placeholderEntry c.poolPath] _ _ _ hd hnames hnodup hstaged.toHolds
      (p.writeAll_eq h hempty).1
  exact ⟨_, hd, hfind, hfiles, hholds, fun hfinds => hholdsOnly (holdsOnly_of_stage hend p.stage_eq hfinds)⟩

/-- **The import path of the pool leads to its directory.** -/
theorem exists_find? : ∃ dir, (c.roots p.staged).find? (c.run t).tree c.pool = some dir ∧
    (c.run t).tree.find dir = (c.run t).tree.find c.poolPath := by
  obtain ⟨d, hstaged, hfind, -, hholds, -⟩ := p.exists_pool h hempty
  -- the directories of the staged tree are still there
  have hplaceholder := hholds.file (placeholderEntry c.poolPath) List.mem_cons_self
  obtain ⟨dir, hdir, hdirFind⟩ := exists_find?_pool p.directory p.fills.outside.current p.fills.kept
    hstaged ⟨placeholderFile, _, hplaceholder, isSourceName_placeholderFile⟩
  exact ⟨dir, hdir, hdirFind.trans hfind.symm⟩

/-- **The package that the second load reads from the pool's directory.**  Whatever the directory holds that
is named like a source file is among its files. -/
theorem exists_package : ∃ d info,
    (c.pool, info) ∈ (Program.walkOf (c.run t).tree (c.roots p.staged)
      (c.strictImports p.resolution.imports)).loaded ∧
    (∀ source ∈ placeholderEntry c.poolPath :: p.sources, isSourceName source.1 = true →
      sourceFileIn d source ∈ info.files) := by
  obtain ⟨d, -, hfind, -, hholds, -⟩ := p.exists_pool h hempty
  obtain ⟨dir, hdir, hdirFind⟩ := p.exists_find? h hempty
  rw [hfind] at hdirFind
  -- a strict load has a package behind every path that it starts from
  obtain ⟨a, ha, hpath⟩ := Program.exists_package_of_entry p.second_eq (c.mem_strictImports _)
  rw [trimmed_pool p.directory] at hpath
  obtain ⟨info, -, ⟨found, hfound, hread⟩, hreach⟩ := (Program.mem_packages_iff p.second_eq).1 ha
  rw [hpath] at hfound hreach
  obtain rfl : dir = found := Option.some.inj (hdir.symm.trans hfound)
  exact ⟨d, info, Program.mem_loaded_iff.2 ⟨⟨dir, hdir, hread⟩, hreach⟩,
    fun source hsource hname => hholds.mem_files hdirFind hread hsource hname⟩

omit h hempty in
/-- **The source of a model**, and what it declares if the model is contained. -/
theorem exists_source {m : MergedModel} (hm : m ∈ p.models) :
    ∃ text, (modelFile m.name, text) ∈ p.sources ∧
      ((Emitter.ofModels c.pool c.poolName p.models).Contains m →
        (Emitter.ofModels c.pool c.poolName p.models).Declares m
          ((Emitter.ofModels c.pool c.poolName p.models).expressions m) (.ofText text)) :=
  exists_source_of_model p.first_eq c.isWord_poolName p.models_eq p.sources_eq hm

omit h hempty in
theorem isWord_name {m : MergedModel} (hm : m ∈ p.models) : Source.isWord m.name.toList = true :=
  Program.isWord_of_merge p.first_eq p.models_eq hm

end RunConfig.TwoPasses

end ModelPool
