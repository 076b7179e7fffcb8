import ModelPool.Proofs.Pool.Directory
import ModelPool.Proofs.Pool.Writing
import ModelPool.Run.Engine

/-!
# Proofs/Run/Passes — the two loads of a run

    tree ──stage──▸ staged ──load──▸ first program ──merge──▸ models
                      │                                         │
                      └──────────────── write ◂────────────── sources
                                          │
                                          ▾
                                        tree ──load──▸ second program

A run that ends well has loaded twice, and the second load met the tree of the first, grown by the
sources of the pool.  The pool is made of the models of the first load; the second one only checks it.  So
it is not promised that the second load would give the same models, and the exact condition is that no
field has lost a name to a glob which stands before the one that the name was taken from.

* `exists_twoPasses` — what a run that ends well has gone through.
-/

namespace ModelPool

open FileTree Text

/-! ## Steps of a run -/

/-- Two steps succeed if both do. -/
theorem Step.andThen_eq_ok_iff {α β : Type} {s : Step α} {next : Run → α → Step β} {r : Run} {b : β} :
    s.andThen next = (r, .ok b) ↔ ∃ r' a, s = (r', .ok a) ∧ next r' a = (r, .ok b) := by
  obtain ⟨r', result⟩ := s
  cases result with
  | error e => simp [andThen]
  | ok a => simp [andThen]

namespace Step

variable {α β : Type} {P : Run → RunError → Prop}

/-- What holds of a run and an error wherever a step fails. -/
def Fails (s : Step α) (P : Run → RunError → Prop) : Prop := ∀ r e, s = (r, .error e) → P r e

/-- It holds behind two steps if it holds behind each of them. -/
theorem Fails.andThen {s : Step α} {next : Run → α → Step β} (h : s.Fails P)
    (hnext : ∀ r a, s = (r, .ok a) → (next r a).Fails P) : (s.andThen next).Fails P := by
  obtain ⟨r, result⟩ := s
  cases result with
  | error e =>
    intro last e' heq
    obtain ⟨rfl, herror⟩ := Prod.mk.inj heq
    obtain rfl := Except.error.inj herror
    exact h r e rfl
  | ok a => exact hnext r a rfl

end Step

namespace RunConfig

variable {c : RunConfig} {t : FileTree} {synthesizer : Synthesizer} {r r' : Run}

/-- A run ends well if its steps do. -/
theorem exists_steps_of_done (h : (c.runWith synthesizer t).state = .done) :
    ∃ r, c.steps synthesizer (.start t c) = (r, .ok ()) ∧ (c.runWith synthesizer t).tree = r.tree ∧
      (c.runWith synthesizer t).report = r.report := by
  unfold runWith at h ⊢
  split at h
  · next r hr =>
    rw [hr]
    exact ⟨r, rfl, rfl, rfl⟩
  · simp [Run.verdict, Run.advance] at h

theorem runWith_of_steps_ok (h : c.steps synthesizer (.start t c) = (r, .ok ())) :
    c.runWith synthesizer t = r.verdict none := by
  unfold runWith
  simp only [h]

theorem runWith_of_steps_error {e : RunError} (h : c.steps synthesizer (.start t c) = (r, .error e)) :
    c.runWith synthesizer t = (r.advance .aborted).verdict (some e) := by
  unfold runWith
  simp only [h]

theorem clearPool_eq_ok {u : Unit} (h : c.clearPool r = (r', .ok u)) :
    checkPoolDirectory c.poolDir = .ok () ∧
      ∃ placeholder, r.tree.stage c.poolPath = (r'.tree, .ok placeholder) := by
  unfold clearPool at h
  split at h
  · simp at h
  · next hcheck =>
    split at h
    · simp at h
    · next staged placeholder hstage =>
      obtain ⟨rfl, -⟩ := Prod.mk.inj h
      exact ⟨hcheck, placeholder, hstage⟩

theorem resolveImports_eq_ok {roots : SourceRoots} {res : Resolution}
    (h : c.resolveImports roots r = (r', .ok res)) :
    c.resolve r.tree roots = .ok res ∧ r'.tree = r.tree := by
  unfold resolveImports at h
  dsimp only at h
  split at h
  · simp at h
  · next res' hres =>
    obtain ⟨rfl, hsame⟩ := Prod.mk.inj h
    obtain rfl := Except.ok.inj hsame
    exact ⟨hres, rfl⟩

theorem loadProgram_eq_ok {roots : SourceRoots} {res : Resolution} {p : Program}
    (h : loadProgram roots res r = (r', .ok p)) :
    Program.load r.tree roots res.imports .tolerant = .ok p ∧ r'.tree = r.tree := by
  unfold loadProgram at h
  dsimp only at h
  split at h
  · simp at h
  · next p' hp =>
    obtain ⟨rfl, hsame⟩ := Prod.mk.inj h
    obtain rfl := Except.ok.inj hsame
    exact ⟨hp, rfl⟩

theorem fillPool_eq_ok {p : Program} {u : Unit} (h : c.fillPool synthesizer p r = (r', .ok u)) :
    ∃ output, synthesizer r.tree p c.poolPath = (r'.tree, .ok output) ∧
      r'.report.models = output.models ∧ r'.report.files = output.files := by
  unfold fillPool at h
  dsimp only at h
  split at h
  · simp at h
  · next last output houtput =>
    obtain ⟨rfl, -⟩ := Prod.mk.inj h
    exact ⟨output, houtput, rfl, rfl⟩

theorem checkPool_eq_ok {roots : SourceRoots} {res : Resolution} {u : Unit}
    (h : c.checkPool roots res r = (r', .ok u)) :
    (∃ p, Program.load r.tree roots (c.strictImports res.imports) .strict = .ok p) ∧
      r'.tree = r.tree ∧ r'.report = r.report := by
  unfold checkPool at h
  dsimp only at h
  split at h
  · simp at h
  · next p hp =>
    obtain ⟨rfl, -⟩ := Prod.mk.inj h
    exact ⟨⟨p, hp⟩, rfl, rfl⟩

/-! Where they fail, only the filling of the pool changes the tree. -/

variable {e : RunError}

theorem resolveImports_eq_error {roots : SourceRoots} (h : c.resolveImports roots r = (r', .error e)) :
    r'.tree = r.tree ∧ ∃ cause, e = .resolve cause := by
  unfold resolveImports at h
  dsimp only at h
  split at h
  · obtain ⟨rfl, herror⟩ := Prod.mk.inj h
    exact ⟨rfl, _, (Except.error.inj herror).symm⟩
  · simp at h

theorem loadProgram_eq_error {roots : SourceRoots} {res : Resolution}
    (h : loadProgram roots res r = (r', .error e)) : r'.tree = r.tree ∧ ∃ cause, e = .load cause := by
  unfold loadProgram at h
  dsimp only at h
  split at h
  · obtain ⟨rfl, herror⟩ := Prod.mk.inj h
    exact ⟨rfl, _, (Except.error.inj herror).symm⟩
  · simp at h

theorem fillPool_eq_error {p : Program} (h : c.fillPool synthesizer p r = (r', .error e)) :
    ∃ cause, e = .synthesis cause ∧ synthesizer r.tree p c.poolPath = (r'.tree, .error cause) := by
  unfold fillPool at h
  dsimp only at h
  split at h
  · next u cause hcause =>
    obtain ⟨rfl, herror⟩ := Prod.mk.inj h
    exact ⟨cause, (Except.error.inj herror).symm, hcause⟩
  · simp at h

theorem checkPool_eq_error {roots : SourceRoots} {res : Resolution}
    (h : c.checkPool roots res r = (r', .error e)) : ∃ cause, e = .validation cause := by
  unfold checkPool at h
  dsimp only at h
  split at h
  · exact ⟨_, (Except.error.inj (Prod.mk.inj h).2).symm⟩
  · simp at h

/-! ## Two passes -/

/-- **What a run that ends well has gone through**: the tree with the pool cleared, what is to be loaded,
the program of the first load with its models and the sources made of them, and the program of the second
load. -/
structure TwoPasses (c : RunConfig) (t : FileTree) where
  staged : FileTree
  placeholder : FilePath
  resolution : Resolution
  first : Program
  models : List MergedModel
  names : List String
  sources : List (String × String)
  second : Program
  directory : checkPoolDirectory c.poolDir = .ok ()
  stage_eq : t.stage c.poolPath = (staged, .ok placeholder)
  resolve_eq : c.resolve staged (c.roots staged) = .ok resolution
  first_eq : Program.load staged (c.roots staged) resolution.imports .tolerant = .ok first
  models_eq : first.merge c.pool = .ok models
  sources_eq : poolSources c.pool c.poolName first = .ok (names, sources)
  tree_eq : (c.run t).tree = (writeAll c.poolPath staged sources).1
  second_eq : Program.load (c.run t).tree (c.roots staged) (c.strictImports resolution.imports)
    .strict = .ok second

/-- **The steps of a run that ends well**, and what they leave for the next ones. -/
theorem exists_synthesis_of_done (h : (c.run t).state = .done) (hempty : c.emptyPool = false) :
    ∃ (p : TwoPasses c t) (output : Synthesis),
      synthesizePool c.pool c.poolName p.staged p.first c.poolPath = ((c.run t).tree, .ok output) ∧
      (c.run t).report.models = output.models ∧ (c.run t).report.files = output.files := by
  obtain ⟨last, hsteps, htree, hreport⟩ := exists_steps_of_done h
  change (c.run t).tree = last.tree at htree
  change (c.run t).report = last.report at hreport
  obtain ⟨r₁, _, hclear, hsteps⟩ := Step.andThen_eq_ok_iff.1 hsteps
  rw [if_neg (by simp [hempty])] at hsteps
  obtain ⟨r₂, res, hresolve, hsteps⟩ := Step.andThen_eq_ok_iff.1 hsteps
  obtain ⟨r₃, first, hload, hsteps⟩ := Step.andThen_eq_ok_iff.1 hsteps
  obtain ⟨r₄, _, hfill, hsteps⟩ := Step.andThen_eq_ok_iff.1 hsteps
  obtain ⟨r₅, _, hcheck, hsteps⟩ := Step.andThen_eq_ok_iff.1 hsteps
  obtain ⟨hdirectory, placeholder, hstage⟩ := clearPool_eq_ok hclear
  obtain ⟨hresolve, htree₂⟩ := resolveImports_eq_ok hresolve
  obtain ⟨hfirst, htree₃⟩ := loadProgram_eq_ok hload
  obtain ⟨output, hfill, hnames, hfiles⟩ := fillPool_eq_ok hfill
  obtain ⟨⟨second, hsecond⟩, htree₅, hreport₅⟩ := checkPool_eq_ok hcheck
  obtain ⟨sources, hsources, hwritten⟩ := synthesizePool_eq_ok hfill
  obtain ⟨models, hmodels, -⟩ := poolSources_eq_ok hsources
  obtain ⟨hlast, hlastNames, hlastFiles⟩ : last.tree = r₅.tree ∧
      last.report.models = r₅.report.models ∧ last.report.files = r₅.report.files := by
    obtain ⟨rfl, -⟩ := Prod.mk.inj hsteps
    exact ⟨rfl, rfl, rfl⟩
  have htree₄ : (c.run t).tree = r₄.tree := by rw [htree, hlast, htree₅]
  rw [htree₂] at hfirst
  rw [htree₃, htree₂, ← htree₄] at hfill hwritten
  refine ⟨{
    staged := r₁.tree
    placeholder := placeholder
    resolution := res
    first := first
    models := models
    names := output.models
    sources := sources
    second := second
    directory := hdirectory
    stage_eq := hstage
    resolve_eq := hresolve
    first_eq := hfirst
    models_eq := hmodels
    sources_eq := hsources
    tree_eq := (congrArg Prod.fst hwritten).symm
    second_eq := by rw [htree₄]; exact hsecond }, output, hfill, ?_, ?_⟩
  · rw [hreport, hlastNames, hreport₅, hnames]
  · rw [hreport, hlastFiles, hreport₅, hfiles]

/-- **A run that ends well has loaded twice.** -/
theorem exists_twoPasses (h : (c.run t).state = .done) (hempty : c.emptyPool = false) :
    Nonempty (TwoPasses c t) := by
  obtain ⟨p, -⟩ := exists_synthesis_of_done h hempty
  exact ⟨p⟩

/-- **The sources have been written**, and the report tells what has been written. -/
theorem TwoPasses.writeAll_eq (p : TwoPasses c t) (h : (c.run t).state = .done)
    (hempty : c.emptyPool = false) :
    writeAll c.poolPath p.staged p.sources = ((c.run t).tree, .ok (c.run t).report.files) ∧
      (c.run t).report.models = p.names := by
  obtain ⟨q, output, hfill, hnames, hfiles⟩ := exists_synthesis_of_done h hempty
  -- both have gone through the same steps
  obtain ⟨hstaged, -⟩ := Prod.mk.inj (q.stage_eq.symm.trans p.stage_eq)
  have hresolution := q.resolve_eq
  rw [hstaged, p.resolve_eq] at hresolution
  have hfirst := q.first_eq
  rw [hstaged, ← Except.ok.inj hresolution, p.first_eq] at hfirst
  rw [hstaged, ← Except.ok.inj hfirst] at hfill
  obtain ⟨sources, hsources, hwritten⟩ := synthesizePool_eq_ok hfill
  rw [p.sources_eq] at hsources
  obtain ⟨hsame, rfl⟩ := Prod.mk.inj (Except.ok.inj hsources)
  rw [hfiles, hnames]
  exact ⟨hwritten, hsame.symm⟩

/-- The second load starts from the pool as well. -/
theorem mem_strictImports (c : RunConfig) (imports : ImportSet) :
    c.pool ∈ (c.strictImports imports).paths := by
  unfold strictImports
  split
  · next h => simpa [ImportSet.contains] using h
  · exact List.mem_append_right _ List.mem_cons_self

end RunConfig

end ModelPool
