import ModelPool.Proofs.Load.Counted
import ModelPool.Proofs.Run.Passes

/-!
# Proofs/Run/Outcome — what a run comes to

    steps      clear  ─▸  resolve  ─▸  load  ─▸  fill  ─▸  load again  ─▸  end
    outcome              first program ┘    tree, files ┘      └ second program

A run that ends well is known from what its steps give.  `outcome?` puts the same steps together without the
states, the report and the progress that a run carries along, and with the turns of its walks counted, so each
step of a run is evaluated once.

* `done_of_outcome` — the run ends well, and leaves what the outcome says.
* `TwoPasses.eq_of_outcome` — its two loads give the programs of the outcome.
-/

namespace ModelPool

open FileTree

/-- **What a run comes to** that ends well: the program of the first load, the tree that is left, what has been
written, and the program of the second load. -/
structure RunOutcome where
  first : Program
  tree : FileTree
  output : Synthesis
  second : Program

namespace RunConfig

variable {c : RunConfig} {t : FileTree} {synthesizer : Synthesizer} {r : Run} {roots : SourceRoots}
  {res : Resolution} {o : RunOutcome}

/-- The outcome of a run, where none of its steps fails. -/
def outcome? (c : RunConfig) (t : FileTree) : Option RunOutcome := do
  let cleared := t.stage c.poolPath
  let roots := c.roots cleared.1
  let _ ← (checkPoolDirectory c.poolDir).toOption
  let _ ← cleared.2.toOption
  let resolution ← (c.resolve cleared.1 roots).toOption
  let first ← (Program.countedLoad cleared.1 roots resolution.imports .tolerant).toOption
  let filled := synthesizePool c.pool c.poolName cleared.1 first c.poolPath
  let output ← filled.2.toOption
  let second ← (Program.countedLoad filled.1 roots (c.strictImports resolution.imports) .strict).toOption
  return ⟨first, filled.1, output, second⟩

/-- **The steps of an outcome.** -/
structure Reaches (c : RunConfig) (t : FileTree) (o : RunOutcome) (staged : FileTree) (placeholder : FilePath)
    (resolution : Resolution) : Prop where
  directory : checkPoolDirectory c.poolDir = .ok ()
  stage_eq : t.stage c.poolPath = (staged, .ok placeholder)
  resolve_eq : c.resolve staged (c.roots staged) = .ok resolution
  first_eq : Program.load staged (c.roots staged) resolution.imports .tolerant = .ok o.first
  synthesis_eq : synthesizePool c.pool c.poolName staged o.first c.poolPath = (o.tree, .ok o.output)
  second_eq : Program.load o.tree (c.roots staged) (c.strictImports resolution.imports) .strict = .ok o.second

theorem exists_reaches (h : o ∈ c.outcome? t) :
    ∃ staged placeholder resolution, c.Reaches t o staged placeholder resolution := by
  rw [Option.mem_def, outcome?] at h
  simp only [Option.bind_eq_bind, Option.bind_eq_some_iff, toOption_eq_some_iff, Program.countedLoad_eq] at h
  obtain ⟨_, hdirectory, placeholder, hstage, resolution, hresolve, first, hfirst, output, houtput, second,
    hsecond, hend⟩ := h
  obtain rfl := Option.some.inj hend
  exact ⟨_, placeholder, resolution, hdirectory, Prod.ext rfl hstage, hresolve, hfirst, Prod.ext rfl houtput,
    hsecond⟩

/-! ## Steps that succeed -/

theorem exists_clearPool {staged : FileTree} {placeholder : FilePath}
    (hdirectory : checkPoolDirectory c.poolDir = .ok ())
    (hstage : r.tree.stage c.poolPath = (staged, .ok placeholder)) :
    ∃ r', c.clearPool r = (r', .ok ()) ∧ r'.tree = staged := by
  unfold clearPool
  simp only [hdirectory, hstage]
  exact ⟨_, rfl, rfl⟩

theorem exists_resolveImports (h : c.resolve r.tree roots = .ok res) :
    ∃ r', c.resolveImports roots r = (r', .ok res) ∧ r'.tree = r.tree := by
  have hresolve : c.resolve ((r.tellLine "Poolgen Generate\n----------------").tellLine
      ("Detected framework root at " ++ c.frameworkRoot.text ++ ".")).tree roots = .ok res := h
  unfold resolveImports
  simp only [hresolve]
  exact ⟨_, rfl, rfl⟩

theorem exists_loadProgram {p : Program} (h : Program.load r.tree roots res.imports .tolerant = .ok p) :
    ∃ r', loadProgram roots res r = (r', .ok p) ∧ r'.tree = r.tree := by
  unfold loadProgram
  dsimp only [Run.tellLine, Run.tell]
  simp only [h]
  exact ⟨_, rfl, rfl⟩

theorem exists_fillPool {p : Program} {filled : FileTree} {output : Synthesis}
    (h : synthesizer r.tree p c.poolPath = (filled, .ok output)) :
    ∃ r', c.fillPool synthesizer p r = (r', .ok ()) ∧ r'.tree = filled ∧
      r'.report.models = output.models ∧ r'.report.files = output.files := by
  unfold fillPool
  dsimp only [Run.tell]
  simp only [h]
  exact ⟨_, rfl, rfl, rfl, rfl⟩

theorem exists_checkPool {p : Program}
    (h : Program.load r.tree roots (c.strictImports res.imports) .strict = .ok p) :
    ∃ r', c.checkPool roots res r = (r', .ok ()) ∧ r'.tree = r.tree ∧ r'.report = r.report := by
  unfold checkPool
  dsimp only [Run.tell]
  simp only [h]
  exact ⟨_, rfl, rfl, rfl⟩

/-! ## Runs with an outcome -/

/-- **A run with an outcome ends well**, and leaves the tree and tells the files of the outcome. -/
theorem done_of_outcome (h : o ∈ c.outcome? t) (hempty : c.emptyPool = false) :
    (c.run t).state = .done ∧ (c.run t).tree = o.tree ∧
      (c.run t).report.models = o.output.models ∧ (c.run t).report.files = o.output.files := by
  obtain ⟨staged, placeholder, resolution, hreaches⟩ := exists_reaches h
  obtain ⟨r₁, hclear, htree₁⟩ := @exists_clearPool c (.start t c) _ _ hreaches.directory hreaches.stage_eq
  obtain ⟨r₂, hresolve, htree₂⟩ := @exists_resolveImports c r₁ (c.roots r₁.tree) resolution
    (by rw [htree₁]; exact hreaches.resolve_eq)
  obtain ⟨r₃, hload, htree₃⟩ := @exists_loadProgram r₂ (c.roots r₁.tree) resolution o.first
    (by rw [htree₂, htree₁]; exact hreaches.first_eq)
  obtain ⟨r₄, hfill, htree₄, hmodels, hfiles⟩ := @exists_fillPool c (synthesizePool c.pool c.poolName) r₃
    o.first _ _ (by rw [htree₃, htree₂, htree₁]; exact hreaches.synthesis_eq)
  obtain ⟨r₅, hcheck, htree₅, hreport⟩ := @exists_checkPool c r₄ (c.roots r₁.tree) resolution o.second
    (by rw [htree₄, htree₁]; exact hreaches.second_eq)
  have hgenerate : c.generate (synthesizePool c.pool c.poolName) r₁ =
      ((c.noteDigest r₅).tellLine "Pool generated successfully" |>.advance .done, .ok ()) :=
    Step.andThen_eq_ok_iff.2 ⟨r₂, _, hresolve, Step.andThen_eq_ok_iff.2 ⟨r₃, _, hload,
      Step.andThen_eq_ok_iff.2 ⟨r₄, _, hfill, Step.andThen_eq_ok_iff.2 ⟨r₅, _, hcheck, rfl⟩⟩⟩⟩
  have hsteps : c.steps (synthesizePool c.pool c.poolName) (.start t c) =
      ((c.noteDigest r₅).tellLine "Pool generated successfully" |>.advance .done, .ok ()) := by
    refine Step.andThen_eq_ok_iff.2 ⟨r₁, (), hclear, ?_⟩
    rw [if_neg (by simp [hempty])]
    exact hgenerate
  rw [run, runWith_of_steps_ok hsteps]
  exact ⟨rfl, htree₅.trans htree₄, (congrArg RunReport.models hreport).trans hmodels,
    (congrArg RunReport.files hreport).trans hfiles⟩

/-- **The two loads of a run with an outcome** give its programs. -/
theorem TwoPasses.eq_of_outcome (p : TwoPasses c t) (h : o ∈ c.outcome? t) (hempty : c.emptyPool = false) :
    p.first = o.first ∧ p.second = o.second := by
  obtain ⟨staged, placeholder, resolution, hreaches⟩ := exists_reaches h
  obtain ⟨hstaged, -⟩ := Prod.mk.inj (hreaches.stage_eq.symm.trans p.stage_eq)
  subst hstaged
  have hresolution := Except.ok.inj (p.resolve_eq.symm.trans hreaches.resolve_eq)
  have hfirst := p.first_eq
  have hsecond := p.second_eq
  rw [hresolution] at hfirst hsecond
  rw [(done_of_outcome h hempty).2.1] at hsecond
  exact ⟨Except.ok.inj (hfirst.symm.trans hreaches.first_eq),
    Except.ok.inj (hsecond.symm.trans hreaches.second_eq)⟩

/-- And its models are those of the first one. -/
theorem TwoPasses.models_eq_of_outcome (p : TwoPasses c t) (h : o ∈ c.outcome? t) (hempty : c.emptyPool = false)
    {models : List MergedModel} (hmerge : o.first.merge c.pool = .ok models) : p.models = models := by
  rw [← (p.eq_of_outcome h hempty).1] at hmerge
  exact Except.ok.inj (p.models_eq.symm.trans hmerge)

end RunConfig

end ModelPool
