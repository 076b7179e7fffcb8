import ModelPool.Files.Texts
import ModelPool.Proofs.Pool.Restaging
import ModelPool.Proofs.Run.Passes

/-!
# Proofs/Run/Repetition — a run does not depend on the old pool

    tree ──run──▸ tree with a pool ──run──▸ the same tree

The first thing that a run does is to clear the pool, and nothing that it does later depends on more than
what is left.  So a run gives the same in trees that only differ in the pool, and a second run gives what
the first one gave.  This takes that the pool is found where it stands, and a path can miss it:

    pool/          where a file is called pool: the run is aborted
    x/../pool      where there is no x: the old pool is not removed, but x is made

* `run_forgets_pool` — a run and its repetition.
* `not_forall_run_forgets_pool` — a pool that is not found makes a difference.
-/

namespace ModelPool

open FileTree

/-- What holds of the tree behind a step, and behind the next one where that is made. -/
theorem Step.tree_andThen {α β : Type} {P : FileTree → Prop} {s : Step α} {next : Run → α → Step β}
    (hs : P s.1.tree) (hnext : ∀ r a, s = (r, .ok a) → P (next r a).1.tree) :
    P (s.andThen next).1.tree := by
  obtain ⟨r, result⟩ := s
  cases result with
  | error e => exact hs
  | ok a => exact hnext r a rfl

namespace RunConfig

variable {c : RunConfig} {t u : FileTree}

/-! ## Trees behind steps -/

section Steps

variable (c) (synthesizer : Synthesizer) (roots : SourceRoots) (res : Resolution) (p : Program) (r : Run)

theorem tree_resolveImports : (c.resolveImports roots r).1.tree = r.tree := by
  unfold resolveImports
  dsimp only
  split <;> rfl

theorem tree_loadProgram : (loadProgram roots res r).1.tree = r.tree := by
  unfold loadProgram
  dsimp only
  split <;> rfl

theorem tree_fillPool :
    (c.fillPool synthesizer p r).1.tree = (synthesizer r.tree p c.poolPath).1 := by
  unfold fillPool
  dsimp only
  split
  · next h => exact (congrArg Prod.fst h).symm
  · next h => exact (congrArg Prod.fst h).symm

theorem tree_checkPool : (c.checkPool roots res r).1.tree = r.tree := by
  unfold checkPool
  dsimp only
  split <;> rfl

end Steps

/-- **A tree that a run may leave** behind the clearing of the pool: the cleared tree, or what the
synthesizer makes of it for a program that has been loaded from it. -/
def Leaves (c : RunConfig) (synthesizer : Synthesizer) (t u : FileTree) : Prop :=
  u = t ∨ ∃ roots imports p, Program.load t roots imports .tolerant = .ok p ∧
    u = (synthesizer t p c.poolPath).1

/-- **Behind the clearing of the pool, only the synthesizer changes the tree.** -/
theorem leaves_generate (c : RunConfig) (synthesizer : Synthesizer) (r : Run) :
    c.Leaves synthesizer r.tree (c.generate synthesizer r).1.tree := by
  unfold generate
  dsimp only
  refine Step.tree_andThen (P := c.Leaves synthesizer r.tree)
    (.inl (c.tree_resolveImports _ r)) fun r₁ res h₁ => ?_
  have htree₁ := (resolveImports_eq_ok h₁).2
  refine Step.tree_andThen (.inl ((tree_loadProgram _ res r₁).trans htree₁)) fun r₂ p h₂ => ?_
  obtain ⟨hload, htree₂⟩ := loadProgram_eq_ok h₂
  rw [htree₁] at hload
  have htree₃ : (c.fillPool synthesizer p r₂).1.tree = (synthesizer r.tree p c.poolPath).1 := by
    rw [c.tree_fillPool, htree₂, htree₁]
  have hfilled : ∀ {u}, u = (c.fillPool synthesizer p r₂).1.tree →
      c.Leaves synthesizer r.tree u := by
    rintro _ rfl
    exact .inr ⟨_, _, p, hload, htree₃⟩
  refine Step.tree_andThen (hfilled rfl) fun r₃ _ h₃ => ?_
  have hr₃ : r₃.tree = (c.fillPool synthesizer p r₂).1.tree := by rw [h₃]
  refine Step.tree_andThen (hfilled ((c.tree_checkPool _ res r₃).trans hr₃)) fun r₄ _ h₄ => ?_
  exact hfilled ((checkPool_eq_ok h₄).2.1.trans hr₃)

/-! ## Runs in trees with the same cleared pool -/

/-- **A run depends on a tree only through what clearing the pool gives.** -/
theorem runWith_congr (hdir : checkPoolDirectory c.poolDir = .ok ())
    (h : u.stage c.poolPath = t.stage c.poolPath) (synthesizer : Synthesizer) :
    c.runWith synthesizer u = c.runWith synthesizer t := by
  have hclear : c.clearPool (.start u c) = c.clearPool (.start t c) := by
    unfold clearPool
    rw [hdir]
    simp only [Run.start, h]
  unfold runWith steps
  rw [hclear]

/-- **The tree that a run leaves** is what clearing the pool leaves, or one that is left behind that. -/
theorem tree_runWith (hdir : checkPoolDirectory c.poolDir = .ok ()) (synthesizer : Synthesizer)
    (t : FileTree) :
    (c.runWith synthesizer t).tree = (t.stage c.poolPath).1 ∨
      ∃ staged placeholder, t.stage c.poolPath = (staged, .ok placeholder) ∧
        c.Leaves synthesizer staged (c.runWith synthesizer t).tree := by
  have hsteps : (c.runWith synthesizer t).tree = (c.steps synthesizer (.start t c)).1.tree := by
    unfold runWith
    split
    · next h =>
      rw [h]
      rfl
    · next h =>
      rw [h]
      rfl
  rw [hsteps]
  unfold steps clearPool
  rw [hdir]
  dsimp only [Run.start]
  cases hstage : t.stage c.poolPath with
  | mk staged result =>
    cases result with
    | error e => exact .inl rfl
    | ok placeholder =>
      dsimp only [Step.andThen]
      split
      · exact .inl rfl
      · exact .inr ⟨staged, placeholder, rfl, c.leaves_generate synthesizer _⟩

/-! ## Runs that the clearing of the pool aborts -/

/-- Behind the clearing of the pool, no step fails as it does. -/
theorem fails_generate_stage (c : RunConfig) (synthesizer : Synthesizer) (r : Run) :
    (c.generate synthesizer r).Fails fun _ e => ∀ cause, e ≠ .stage cause := by
  unfold generate
  dsimp only
  refine Step.Fails.andThen (fun r₁ e h₁ => ?_) fun r₁ res _ => ?_
  · obtain ⟨-, _, rfl⟩ := resolveImports_eq_error h₁
    simp
  refine Step.Fails.andThen (fun r₂ e h₂ => ?_) fun r₂ p _ => ?_
  · obtain ⟨-, _, rfl⟩ := loadProgram_eq_error h₂
    simp
  refine Step.Fails.andThen (fun r₃ e h₃ => ?_) fun r₃ _ _ => ?_
  · obtain ⟨_, rfl, -⟩ := fillPool_eq_error h₃
    simp
  refine Step.Fails.andThen (fun r₄ e h₄ => ?_) fun r₄ _ _ r₅ e h₅ => ?_
  · obtain ⟨_, rfl⟩ := checkPool_eq_error h₄
    simp
  · exact absurd (Prod.mk.inj h₅).2 (by simp)

/-- **The error of the clearing of the pool** is told by a run only where the clearing has failed with it. -/
theorem stage_eq_error_of_run {synthesizer : Synthesizer} {cause : StageError}
    (h : (c.runWith synthesizer t).error = some (.stage cause)) :
    (t.stage c.poolPath).2 = .error cause := by
  have hfails : (c.steps synthesizer (.start t c)).Fails fun _ e =>
      ∀ cause, e = .stage cause → (t.stage c.poolPath).2 = .error cause := by
    unfold steps
    refine Step.Fails.andThen (fun r e hclear => ?_) fun r _ _ => ?_
    · unfold clearPool at hclear
      split at hclear
      · obtain rfl := Except.error.inj (Prod.mk.inj hclear).2
        simp
      · split at hclear
        · next hstage =>
          obtain rfl := Except.error.inj (Prod.mk.inj hclear).2
          intro cause hcause
          obtain rfl := RunError.stage.inj hcause
          exact congrArg Prod.snd hstage
        · exact absurd (Prod.mk.inj hclear).2 (by simp)
    · split
      · intro r' e hend
        exact absurd (Prod.mk.inj hend).2 (by simp)
      · intro r' e hgenerate cause hcause
        exact absurd hcause (fails_generate_stage c synthesizer r r' e hgenerate cause)
  rcases hsteps : c.steps synthesizer (.start t c) with ⟨r, e | u⟩
  · rw [runWith_of_steps_error hsteps] at h
    exact hfails r e hsteps cause (Option.some.inj h)
  · rw [runWith_of_steps_ok hsteps] at h
    exact absurd h (by simp [Run.verdict])

/-! ## Runs and the old pool -/

/-- **The pool is found where it stands** if its directory is not written with a slash at the end, and
either its path does not go up, or the framework is there. -/
theorem findsEntry_poolPath (hdir : checkPoolDirectory c.poolDir = .ok ())
    (hroot : t.isDirectory c.frameworkRoot = true ∨ .up ∉ c.poolPath.components)
    (hend : c.poolDir.text.toList.getLast? ≠ some '/') : t.FindsEntry c.poolPath := by
  obtain ⟨piece, hpiece, hne⟩ := exists_piece_of_check hdir
  obtain ⟨ps, name, hparts, hname⟩ := FilePath.exists_last_withoutEndSlashes hpiece hne
  rw [FilePath.withoutEndSlashes_of_getLast? hend] at hparts
  replace hname : IsName name := isName_of_check hdir (by simp [hparts]) hname
  have hrelative := isAbsolute_of_check hdir
  intro e he
  rcases hroot with hroot | hup
  · obtain ⟨d, hd⟩ := isDirectory_iff.1 hroot
    have hupdir : ".." ∉ ps := fun hmem =>
      up_not_mem_of_check hdir (hparts ▸ List.mem_append_left _ hmem)
    unfold poolPath at he ⊢
    rw [t.leads_join hd hrelative, hparts] at he
    rw [t.leads_join hd hrelative]
    exact t.find_join hd hrelative (hparts ▸ t.locate_of_some hupdir hname he) (hparts ▸ he)
  · obtain ⟨lead, hlead⟩ := c.exists_parts_poolPath hrelative
    rw [hparts, ← List.append_assoc] at hlead
    have huppath : ".." ∉ lead ++ ps := fun hmem =>
      FilePath.up_not_mem_parts hup (hlead ▸ List.mem_append_left _ hmem)
    unfold leads at he ⊢
    rw [hlead] at he ⊢
    refine t.find_eq_ok_iff.2 ⟨?_, he⟩
    rw [t.place_eq_locate (not_isEmpty_poolPath hdir), hlead]
    exact t.locate_of_some huppath hname he

/-- **A run forgets the old pool.**  If the pool is found where it stands, a run gives the same in every
tree that is the same outside and in which the pool is found as well: the same tree in the end, with the
same states, error, report and progress.  And so does a second run, in the tree that the first has left. -/
theorem run_forgets_pool (hdir : checkPoolDirectory c.poolDir = .ok ()) (ht : t.Finds c.poolPath) :
    (∀ u, SameOutside (t.leads c.poolPath) t u → u.Finds c.poolPath → c.run u = c.run t) ∧
      c.run (c.run t).tree = c.run t := by
  have hend := endsInName_poolPath hdir
  refine ⟨fun u hsame hu => ?_, ?_⟩
  · exact runWith_congr hdir (stage_eq_of_sameOutside hend hsame ht.found hu.found) _
  · refine runWith_congr hdir (stage_of_fills hend ht ?_) _
    rcases tree_runWith hdir (synthesizePool c.pool c.poolName) t with
      htree | ⟨staged, placeholder, hstage, hleaves⟩
    · exact .inl htree
    · refine .inr ⟨⟨placeholder, by rw [hstage]⟩, ?_⟩
      rw [hstage]
      rcases hleaves with htree | ⟨roots, imports, p, hload, htree⟩
      · change (c.run t).tree = staged at htree
        rw [htree]
        exact .refl _ _
      · change (c.run t).tree = _ at htree
        rw [htree]
        exact fills_synthesizePool hload _ _ (find_of_stage hend ht.found hstage)

/-! ## A file in the place of the pool -/

/-- The run for a module, with a directory for the pool. -/
def moduleConfig (poolDir : String) : RunConfig :=
  { RunConfig.ofFramework ⟨"/"⟩ with testModule := some ⟨"/a"⟩, poolDir := ⟨poolDir⟩ }

/-- A module and what stands in the place of the pool. -/
def moduleTree (old : Place) : FileTree :=
  .ofTexts [(["a", "x.rs"], "#[model]\nstruct A { x: u8 }"), (old, "struct Old;")]

/-- A source in the directory of the pool makes no difference. -/
theorem run_forgets_pool_source :
    (moduleConfig "pool").run ((moduleTree ["pool", "x.rs"]).removeBelow ["pool"]) =
        (moduleConfig "pool").run (moduleTree ["pool", "x.rs"]) ∧
      (moduleConfig "pool").run ((moduleConfig "pool").run (moduleTree ["pool", "x.rs"])).tree =
        (moduleConfig "pool").run (moduleTree ["pool", "x.rs"]) := by
  have hleads : (moduleTree ["pool", "x.rs"]).leads (moduleConfig "pool").poolPath = ["pool"] := by
    decide
  have hfinds : (moduleTree ["pool", "x.rs"]).Finds (moduleConfig "pool").poolPath :=
    (findsEntry_poolPath (by decide) (.inr (by decide)) (by decide)).finds (by decide +kernel)
  have hfindsu : ((moduleTree ["pool", "x.rs"]).removeBelow ["pool"]).Finds (moduleConfig "pool").poolPath :=
    (findsEntry_poolPath (by decide) (.inr (by decide)) (by decide)).finds (by decide +kernel)
  obtain ⟨hsame, hagain⟩ := run_forgets_pool (c := moduleConfig "pool") (by decide) hfinds
  have hremoved := SameOutside.removeBelow (moduleTree ["pool", "x.rs"]) (d := ["pool"]) (by decide)
  exact ⟨hsame _ (hleads.symm ▸ hremoved) hfindsu, hagain⟩

/-- The clearing of the pool fails at a file in its place, if the directory is written with a slash. -/
theorem stray_run_aborted : ∃ cause,
    ((moduleConfig "pool/").run (moduleTree ["pool"])).error = some (.stage cause) := by
  have herror : ((moduleConfig "pool/").run (moduleTree ["pool"])).error.any
      (fun | .stage _ => true | _ => false) = true := by decide +kernel
  obtain ⟨e, he, hstage⟩ := (Option.any_eq_true _ _).1 herror
  cases e with
  | stage cause => exact ⟨cause, he⟩
  | _ => exact absurd hstage (by simp)

/-- **A pool that is not found makes a difference.** -/
theorem not_forall_run_forgets_pool : ¬ ∀ (c : RunConfig) (t u : FileTree),
    checkPoolDirectory c.poolDir = .ok () → SameOutside (t.leads c.poolPath) t u →
      c.run u = c.run t := by
  intro hforgets
  have hleads : (moduleTree ["pool"]).leads (moduleConfig "pool/").poolPath = ["pool"] := by
    decide
  have hremoved : SameOutside ((moduleTree ["pool"]).leads (moduleConfig "pool/").poolPath)
      (moduleTree ["pool"]) ((moduleTree ["pool"]).removeBelow ["pool"]) := by
    rw [hleads]
    exact .removeBelow _ (by decide)
  have hsame := hforgets (moduleConfig "pool/") _ _ (by decide) hremoved
  obtain ⟨cause, hcause⟩ := stray_run_aborted
  -- without the file the pool is cleared, so a run is not aborted there
  rw [← hsame] at hcause
  have hcleared : (((moduleTree ["pool"]).removeBelow ["pool"]).stage
      (moduleConfig "pool/").poolPath).2.isOk = true := by decide +kernel
  rw [stage_eq_error_of_run hcause] at hcleared
  exact absurd hcleared (by simp [Except.isOk, Except.toBool])

end RunConfig

end ModelPool
