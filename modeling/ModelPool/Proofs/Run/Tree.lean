import ModelPool.Proofs.Pool.QuotedTexts
import ModelPool.Proofs.Run.Filling
import ModelPool.Proofs.Run.Outcome
import ModelPool.Proofs.Run.Repetition

/-!
# Proofs/Run/Tree — the tree that a run leaves

    the pool's directory is refused, or the old pool cannot be removed      the tree as it was
    nothing is found to load, or no sources can be made of what is loaded   pool/temp.rs
    the run ends well                                                       pool/temp.rs  pool/a.rs  pool/registry.rs

All that a run changes lies at the place of the pool or below it, but for directories that the path of the
pool passes.  What stands there in the end depends on the step that has failed, if one has.  Nothing else is
left of the old pool, unless its path goes up through a directory that is missing: then the path does not
lead to it at first, and does so once the directory has been made.

* `run_keeps_tree` — where a run fails.
* `run_fills_pool` — where it ends well.
* `not_forall_pool_clean`, `not_forall_pool_exact` — an old pool that is missed.
-/

namespace ModelPool

open FileTree

/-! ## Where a run fails -/

/-- **The run is aborted before the pool is cleared.** -/
def RunError.IsBeforeClearing : RunError → Prop
  | .poolDirectory _ | .stage (.remove _ _) => True
  | _ => False

/-- **The run is aborted between the clearing of the pool and the first write into it.** -/
def RunError.IsBeforeWriting : RunError → Prop
  | .resolve _ | .load _ => True
  | .synthesis e => ∀ file cause, e ≠ .unwritable file cause
  | _ => False

/-- **The usual synthesizer leaves the tree as it is** where it fails for another reason than a write. -/
theorem tree_synthesizePool_of_error {pool poolName : String} {t : FileTree} {p : Program} {dir : FilePath}
    {e : SynthesisError} (h : (synthesizePool pool poolName t p dir).2 = .error e)
    (he : ∀ file cause, e ≠ .unwritable file cause) : (synthesizePool pool poolName t p dir).1 = t := by
  unfold synthesizePool at h ⊢
  split at h
  · rfl
  · next names sources hsources =>
    obtain ⟨files, hfiles⟩ | ⟨e', he'⟩ : (∃ files, (writeAll dir t sources).2 = .ok files) ∨
        ∃ e', (writeAll dir t sources).2 = .error e' := by
      cases (writeAll dir t sources).2 with
      | ok files => exact .inl ⟨files, rfl⟩
      | error e' => exact .inr ⟨e', rfl⟩
    · dsimp only at h
      rw [hfiles] at h
      exact absurd h (by simp [Except.map])
    · obtain ⟨file, cause, rfl⟩ := isUnwritable_of_writeAll he'
      dsimp only at h
      rw [he'] at h
      exact absurd (Except.error.inj h).symm (he file cause)

namespace RunConfig

variable {c : RunConfig} {t : FileTree} {r : Run}

/-- **What a failure means for the tree**: before the clearing of the pool it is the first one, and before
the first write it is the one with the cleared pool. -/
def Spares (c : RunConfig) (t : FileTree) (r : Run) (e : RunError) : Prop :=
  (e.IsBeforeClearing → r.tree = t) ∧
    (e.IsBeforeWriting → ∃ placeholder, t.stage c.poolPath = (r.tree, .ok placeholder))

theorem fails_clearPool (c : RunConfig) (t : FileTree) :
    (c.clearPool (.start t c)).Fails (c.Spares t) := by
  intro r e heq
  unfold clearPool at heq
  split at heq
  · obtain ⟨rfl, herror⟩ := Prod.mk.inj heq
    obtain rfl := Except.error.inj herror
    exact ⟨fun _ => rfl, False.elim⟩
  · split at heq
    · next u cause hstage =>
      obtain ⟨rfl, herror⟩ := Prod.mk.inj heq
      obtain rfl := Except.error.inj herror
      refine ⟨fun hbefore => ?_, False.elim⟩
      change t.stage c.poolPath = (u, .error cause) at hstage
      change u = t
      -- only the removal of the old pool fails before anything has changed
      unfold stage at hstage
      split at hstage
      · exact (Prod.mk.inj hstage).1.symm
      · split at hstage
        · obtain rfl := Except.error.inj (Prod.mk.inj hstage).2
          exact hbefore.elim
        · dsimp only at hstage
          split at hstage
          · obtain rfl := Except.error.inj (Prod.mk.inj hstage).2
            exact hbefore.elim
          · simp at hstage
    · simp at heq

/-- **Behind the clearing of the pool**, a step that fails before the first write leaves the tree as it is. -/
theorem fails_generate {placeholder : FilePath} (h : t.stage c.poolPath = (r.tree, .ok placeholder)) :
    (c.generate (synthesizePool c.pool c.poolName) r).Fails (c.Spares t) := by
  unfold generate
  dsimp only
  refine Step.Fails.andThen (fun r₁ e h₁ => ?_) fun r₁ res h₁ => ?_
  · obtain ⟨htree, _, rfl⟩ := resolveImports_eq_error h₁
    exact ⟨False.elim, fun _ => ⟨placeholder, htree.symm ▸ h⟩⟩
  rw [← (resolveImports_eq_ok h₁).2] at h
  refine Step.Fails.andThen (fun r₂ e h₂ => ?_) fun r₂ p h₂ => ?_
  · obtain ⟨htree, _, rfl⟩ := loadProgram_eq_error h₂
    exact ⟨False.elim, fun _ => ⟨placeholder, htree.symm ▸ h⟩⟩
  rw [← (loadProgram_eq_ok h₂).2] at h
  refine Step.Fails.andThen (fun r₃ e h₃ => ?_) fun r₃ _ h₃ => ?_
  · obtain ⟨cause, rfl, hcause⟩ := fillPool_eq_error h₃
    refine ⟨False.elim, fun hbefore => ⟨placeholder, ?_⟩⟩
    have htree := tree_synthesizePool_of_error (congrArg Prod.snd hcause) hbefore
    rw [hcause] at htree
    change r₃.tree = r₂.tree at htree
    exact htree.symm ▸ h
  refine Step.Fails.andThen (fun r₄ e h₄ => ?_) fun r₄ _ h₄ r₅ e h₅ => ?_
  · obtain ⟨_, rfl⟩ := checkPool_eq_error h₄
    exact ⟨False.elim, False.elim⟩
  · exact absurd (Prod.mk.inj h₅).2 (by simp)

theorem fails_steps (c : RunConfig) (t : FileTree) :
    (c.steps (synthesizePool c.pool c.poolName) (.start t c)).Fails (c.Spares t) := by
  unfold steps
  refine (fails_clearPool c t).andThen fun r _ h => ?_
  split
  · intro r' e heq
    exact absurd (Prod.mk.inj heq).2 (by simp)
  · obtain ⟨-, placeholder, hstage⟩ := clearPool_eq_ok h
    exact fails_generate hstage

/-- An error aborts a run as it does its steps. -/
theorem spares_of_error {e : RunError} (h : (c.run t).error = some e) :
    ∃ r, (c.run t).tree = r.tree ∧ c.Spares t r e := by
  have hfails := fails_steps c t
  unfold run at h ⊢
  rcases hsteps : c.steps (synthesizePool c.pool c.poolName) (.start t c) with ⟨r, e' | u⟩
  · rw [runWith_of_steps_error hsteps] at h ⊢
    obtain rfl := Option.some.inj h
    exact ⟨r, rfl, hfails r _ hsteps⟩
  · rw [runWith_of_steps_ok hsteps] at h
    exact absurd h (by simp [Run.verdict])

/-- Nothing changes where the pool's directory is refused. -/
theorem tree_run_of_check_error {e : PoolDirectoryError} (h : checkPoolDirectory c.poolDir = .error e) :
    (c.run t).tree = t := by
  unfold run runWith steps clearPool
  rw [h]
  rfl

/-- **A run keeps the tree outside the pool.** -/
theorem keptOutside_run (c : RunConfig) (t : FileTree) :
    KeptOutside (t.leads c.poolPath) (t.passes c.poolPath) t (c.run t).tree := by
  cases hdir : checkPoolDirectory c.poolDir with
  | error e =>
    rw [tree_run_of_check_error hdir]
    exact .refl _ _ t
  | ok u =>
    have hend := endsInName_poolPath hdir
    have hkept := keptOutside_stage hend t
    rcases tree_runWith hdir (synthesizePool c.pool c.poolName) t with
      htree | ⟨staged, placeholder, hstage, hleaves⟩
    · change (c.run t).tree = _ at htree
      rw [htree]
      exact hkept
    · rw [hstage] at hkept
      rcases hleaves with htree | ⟨roots, imports, p, hload, htree⟩
      · change (c.run t).tree = staged at htree
        rw [htree]
        exact hkept
      · change (c.run t).tree = _ at htree
        rw [htree]
        have hfills := fills_synthesizePool hload c.pool c.poolName (consists_of_stage hend hstage).1
        exact hkept.trans (hfills.outside.keptOutside _)

/-- **What a run leaves that fails.**  Outside the place of the pool, it only makes directories that the path
of the pool passes.  If it is aborted before the pool is cleared, the tree is as it was.  If it is aborted
before the first write, the pool consists of the placeholder and what remains, which is nothing if the path of
the pool does not go up. -/
theorem run_keeps_tree (c : RunConfig) (t : FileTree) :
    KeptOutside (t.leads c.poolPath) (t.passes c.poolPath) t (c.run t).tree ∧
      ∀ e, (c.run t).error = some e →
        (e.IsBeforeClearing → (c.run t).tree = t) ∧
        (e.IsBeforeWriting →
          (c.run t).tree.Consists (t.leads c.poolPath) [placeholderEntry c.poolPath]
              (t.remains c.poolPath) ∧
            (.up ∉ c.poolPath.components → ∀ rest, rest ≠ [] → t.remains c.poolPath rest = none)) := by
  refine ⟨keptOutside_run c t, fun e he => ?_⟩
  obtain ⟨r, htree, hclearing, hwriting⟩ := spares_of_error he
  rw [htree]
  refine ⟨hclearing, fun hbefore => ?_⟩
  obtain ⟨placeholder, hstage⟩ := hwriting hbefore
  cases hdir : checkPoolDirectory c.poolDir with
  | error cause =>
    -- a refused directory aborts the run before the clearing
    have herror : (c.run t).error = some (.poolDirectory cause) := by
      unfold run runWith steps clearPool
      rw [hdir]
      rfl
    obtain rfl := Option.some.inj (he.symm.trans herror)
    exact hbefore.elim
  | ok u =>
    have hend := endsInName_poolPath hdir
    exact ⟨(consists_of_stage hend hstage).2, fun hup rest hrest => remains_eq_none hend hstage hup hrest⟩

/-! ## Where a run ends well -/

/-- **A report tells the sources of a pool**: the files of its models in order and the registry, in which the
names of the models stand in quotes. -/
structure Describes (report : RunReport) (pool : FilePath) (files : List (String × String))
    (registry : String) : Prop where
  models_nodup : report.models.Nodup
  names : files.map Prod.fst = report.models.map modelFile
  paths : report.files = (files.map Prod.fst ++ [registryFile]).map pool.child
  quoted : Emitter.quotedTexts registry = report.models.map fun n => "\"" ++ n ++ "\""

/-- **What a run leaves that ends well.**  The pool consists of the placeholder, a file for each model that is
reported, the registry, and what remains, which is nothing if the path of the pool does not go up.  No two of
these files have one name, and the registry lists the models as the report does. -/
theorem run_fills_pool (h : (c.run t).state = .done) (hempty : c.emptyPool = false) :
    ∃ files registry, Describes (c.run t).report c.poolPath files registry ∧
      ((placeholderEntry c.poolPath :: (files ++ [(registryFile, registry)])).map Prod.fst).Nodup ∧
      (c.run t).tree.Consists (t.leads c.poolPath)
        (placeholderEntry c.poolPath :: (files ++ [(registryFile, registry)])) (t.remains c.poolPath) ∧
      (.up ∉ c.poolPath.components → ∀ rest, rest ≠ [] → t.remains c.poolPath rest = none) := by
  obtain ⟨p⟩ := exists_twoPasses h hempty
  obtain ⟨hwrite, hmodels⟩ := p.writeAll_eq h hempty
  obtain ⟨hnames, hall, hnodup⟩ := Program.names_of_poolSources p.first_eq p.sources_eq c.poolPath
  obtain ⟨models, files, hmerge, hmodelNames, hsources, -⟩ := exists_models_of_poolSources p.sources_eq
  have hend := endsInName_poolPath p.directory
  obtain ⟨hfind, hstaged⟩ := consists_of_stage hend p.stage_eq
  have hconsists := hstaged.writeAll hfind hall hnodup hwrite
  obtain ⟨-, hfiles, -⟩ := holds_writeAll hfind hall hnodup hstaged.toHolds hwrite
  rw [hsources] at hnames hfiles hnodup hconsists
  rw [List.map_append] at hnames
  have hfileNames := List.append_inj_left' hnames rfl
  refine ⟨files, (Emitter.ofModels c.pool c.poolName models).registry, ⟨?_, ?_, ?_, ?_⟩, hnodup, hconsists,
    fun hup rest hrest => remains_eq_none hend p.stage_eq hup hrest⟩
  · rw [hmodels]
    rw [List.map_cons, List.map_append, List.nodup_cons, List.nodup_append, hfileNames] at hnodup
    exact List.Nodup.of_map modelFile hnodup.2.1
  · rw [hmodels]
    exact hfileNames
  · rw [hfiles, List.map_append, List.map_append, List.map_map]
    rfl
  · have hquoted := @Emitter.quotedTexts_registry (.ofModels c.pool c.poolName models)
      c.isWord_poolName fun m hm =>
      Program.isWord_of_merge p.first_eq hmerge hm
    rw [hquoted, hmodels, hmodelNames]
    rfl

/-- A run for a module forgets a source in the directory of the pool. -/
theorem run_fills_pool_source :
    (((moduleConfig "pool").run (moduleTree ["pool", "x.rs"])).state = .done ∧
        (moduleConfig "pool").emptyPool = false) ∧
      ((moduleConfig "pool").run (moduleTree ["pool", "x.rs"])).tree.at? ["pool", "x.rs"] = none ∧
      ∃ registry, Emitter.quotedTexts registry = ["\"A\""] ∧
        ((moduleConfig "pool").run (moduleTree ["pool", "x.rs"])).tree.at? ["pool", "registry.rs"] =
          some (.file registry.toUTF8) := by
  obtain ⟨o, ho, hmodels⟩ : ∃ o ∈ (moduleConfig "pool").outcome? (moduleTree ["pool", "x.rs"]),
      o.output.models = ["A"] := by decide +kernel
  obtain ⟨hdone, -, hreported, -⟩ := done_of_outcome ho rfl
  rw [← hreported] at hmodels
  have hleads : (moduleTree ["pool", "x.rs"]).leads (moduleConfig "pool").poolPath = ["pool"] := by
    decide
  obtain ⟨files, registry, hreport, -, hconsists, hremains⟩ := run_fills_pool hdone rfl
  have hnames := hreport.names
  have hquoted := hreport.quoted
  rw [hmodels] at hnames hquoted
  rw [hleads] at hconsists
  refine ⟨⟨hdone, rfl⟩, ?_, registry, hquoted, hconsists.file (registryFile, registry) (by simp)⟩
  refine (hconsists.other ["x.rs"] (by simp) fun source hsource => ?_).trans
    (hremains (by decide) _ (by simp))
  -- no file of the run has this name
  have hname : source.1 ∈ [placeholderFile] ++ (files.map Prod.fst ++ [registryFile]) := by
    have hmem := List.mem_map_of_mem (f := Prod.fst) hsource
    simpa [placeholderEntry] using hmem
  rw [hnames] at hname
  intro heq
  rw [← (List.cons.inj heq).1] at hname
  exact absurd hname (by decide)

/-! ## An old pool that is missed -/

/-- A run whose pool stands where a path leads that goes through a directory which is missing. -/
def missingConfig (testModule : Option FilePath) : RunConfig :=
  { RunConfig.ofFramework ⟨"/x/.."⟩ with testModule, projectDir := ⟨"/none"⟩, poolDir := ⟨"pool"⟩ }

/-- A module, and a source in the old pool. -/
def missedTree : FileTree := moduleTree ["pool", "old.rs"]

/-- **A run that finds nothing to load** leaves the source of the old pool there. -/
theorem missing_run_aborted :
    (∃ cause, ((missingConfig none).run missedTree).error = some (.resolve cause)) ∧
      ((missingConfig none).run missedTree).tree.at? ["pool", "old.rs"] =
        some (.file "struct Old;".toUTF8) := by
  refine ⟨?_, by decide +kernel⟩
  have herror : ((missingConfig none).run missedTree).error.any
      (fun | .resolve _ => true | _ => false) = true := by decide +kernel
  obtain ⟨e, he, hresolve⟩ := (Option.any_eq_true _ _).1 herror
  cases e with
  | resolve cause => exact ⟨cause, he⟩
  | _ => exact absurd hresolve (by simp)

/-- **Not every failure leaves the placeholder alone in the pool.** -/
theorem not_forall_pool_clean : ¬ ∀ (c : RunConfig) (t : FileTree) (e : RunError),
    (c.run t).error = some e → e.IsBeforeWriting → ∀ name bytes,
      (c.run t).tree.at? (t.leads c.poolPath ++ [name]) = some (.file bytes) → name = placeholderFile := by
  intro hall
  obtain ⟨⟨cause, herror⟩, hold⟩ := missing_run_aborted
  have hleads : missedTree.leads (missingConfig none).poolPath = ["pool"] := by decide
  have hplaceholder := hall (missingConfig none) missedTree _ herror trivial "old.rs"
  rw [hleads] at hplaceholder
  exact absurd (hplaceholder _ hold) (by decide)

/-- **A run that ends well** leaves it there as well. -/
theorem missing_run_done :
    ((missingConfig (some ⟨"/a"⟩)).run missedTree).state = .done ∧
      ((missingConfig (some ⟨"/a"⟩)).run missedTree).report.models = ["A"] ∧
      ((missingConfig (some ⟨"/a"⟩)).run missedTree).tree.at? ["pool", "old.rs"] =
        some (.file "struct Old;".toUTF8) := by
  obtain ⟨o, ho, hmodels, hold⟩ : ∃ o ∈ (missingConfig (some ⟨"/a"⟩)).outcome? missedTree,
      o.output.models = ["A"] ∧ o.tree.at? ["pool", "old.rs"] = some (.file "struct Old;".toUTF8) := by
    decide +kernel
  obtain ⟨hdone, htree, hreported, -⟩ := done_of_outcome ho rfl
  exact ⟨hdone, hreported.trans hmodels, htree ▸ hold⟩

/-- **Not every pool holds just what has been written.** -/
theorem not_forall_pool_exact : ¬ ∀ (c : RunConfig) (t : FileTree),
    (c.run t).state = .done → c.emptyPool = false → ∀ name bytes,
      (c.run t).tree.at? (t.leads c.poolPath ++ [name]) = some (.file bytes) →
        name ∈ placeholderFile :: ((c.run t).report.models.map modelFile ++ [registryFile]) := by
  intro hall
  obtain ⟨hdone, hmodels, hold⟩ := missing_run_done
  have hleads : missedTree.leads (missingConfig (some ⟨"/a"⟩)).poolPath = ["pool"] := by decide
  have hmem := hall (missingConfig (some ⟨"/a"⟩)) missedTree hdone rfl "old.rs"
  rw [hleads, hmodels] at hmem
  exact absurd (hmem _ hold) (by decide)

end RunConfig

end ModelPool
