import Mathlib.Data.List.Chain
import ModelPool.Proofs.Run.Passes

/-!
# Proofs/Run/Trace — the states that a run passes, and what it reports of them

    start ─▸ staged ─▸ resolved ─▸ loaded ─▸ synthesized ─▸ validated ─▸ done

A run passes the states of this way up to the one in which a step fails, and is aborted there; it leaves the
way for its end where the pool is to stay empty.  The report is filled in as states are reached, so it tells
nothing of a state that has not been.  The synthesizer has no part in this, whatever it does to the tree.

* `Step.Leads` — what a step keeps, whether it fails or not.
* `runWith_inOrder` — the trace of a run, its error and its report.
-/

namespace ModelPool

/-! ## The way of a run -/

namespace RunState

/-- The states of a run that goes on to its end, in order. -/
def course : List RunState :=
  [.start, .staged, .resolved, .loaded, .synthesized, .validated, .done]

/-- **The way to a state**: the states of the course up to it. -/
def way (s : RunState) : List RunState := course.takeWhile (· ≠ s) ++ [s]

/-- The states of a run whose pool is to stay empty. -/
def shortcut : List RunState := [.start, .staged, .done]

end RunState

open RunState (way shortcut)

/-- **A report agrees with a trace**: it tells of a state only what has been passed. -/
structure RunReport.Agrees (report : RunReport) (trace : List RunState) : Prop where
  package : report.package.isSome = true ↔ .resolved ∈ trace
  loaded : report.loadedPackages ≠ [] ∨ report.warnings ≠ 0 → .loaded ∈ trace
  written : report.models ≠ [] ∨ report.files ≠ [] → .synthesized ∈ trace
  digest : report.digest.isSome = true → .done ∈ trace

/-- More states may have been passed, unless it is the one that tells the package. -/
theorem RunReport.Agrees.mono {report : RunReport} {trace more : List RunState} (h : report.Agrees trace)
    (hsub : trace ⊆ more) (hpackage : .resolved ∈ more → .resolved ∈ trace) : report.Agrees more where
  package := ⟨fun hp => hsub (h.package.1 hp), fun hr => h.package.2 (hpackage hr)⟩
  loaded := fun hl => hsub (h.loaded hl)
  written := fun hw => hsub (h.written hw)
  digest := fun hd => hsub (h.digest hd)

/-- **A run is in a state** if it has come to it on the way, and its report agrees with that. -/
structure Run.IsIn (r : Run) (s : RunState) : Prop where
  state_eq : r.state = s
  trace_eq : r.trace = s.way
  agrees : r.report.Agrees s.way

/-- **A run that advances along the way** is in the next state, if its report agrees with it. -/
theorem Run.IsIn.advance {r last : Run} {s next : RunState} (h : r.IsIn s) (hlast : last.trace = r.trace)
    (hway : next.way = s.way ++ [next]) (hagrees : last.report.Agrees next.way) :
    (last.advance next).IsIn next where
  state_eq := rfl
  trace_eq := by
    change last.trace ++ [next] = next.way
    rw [hlast, h.trace_eq, hway]
  agrees := hagrees

/-! ## Steps -/

namespace Step

variable {α : Type}

/-- **A step leads from one state to another**: where it fails, the run is still in the first one. -/
def Leads (step : Step α) (s next : RunState) : Prop :=
  match step with
  | (r, .error _) => r.IsIn s
  | (r, .ok _) => r.IsIn next

/-- **A step ends a run** with a trace, unless it fails in a state that is not terminal. -/
def Ends (step : Step Unit) (trace : List RunState) : Prop :=
  match step with
  | (r, .error _) => ∃ s, s.isTerminal = false ∧ r.IsIn s
  | (r, .ok _) => r.state = .done ∧ r.trace = trace ∧ r.report.Agrees trace

theorem Ends.of_error {step : Step Unit} {trace : List RunState} {r : Run} {e : RunError}
    (h : step.Ends trace) (hstep : step = (r, .error e)) : ∃ s, s.isTerminal = false ∧ r.IsIn s := by
  subst hstep
  exact h

theorem Ends.of_ok {step : Step Unit} {trace : List RunState} {r : Run} {u : Unit}
    (h : step.Ends trace) (hstep : step = (r, .ok u)) :
    r.state = .done ∧ r.trace = trace ∧ r.report.Agrees trace := by
  subst hstep
  exact h

/-- **A step that leads to a state is followed by what is done in that state.** -/
theorem Leads.andThen {step : Step α} {s mid : RunState} {next : Run → α → Step Unit}
    {trace : List RunState} (h : step.Leads s mid) (hs : s.isTerminal = false)
    (hnext : ∀ r a, r.IsIn mid → (next r a).Ends trace) : (step.andThen next).Ends trace := by
  obtain ⟨r, result⟩ := step
  cases result with
  | error e => exact ⟨s, hs, h⟩
  | ok a => exact hnext r a h

end Step

namespace RunConfig

variable {c : RunConfig} {synthesizer : Synthesizer} {roots : SourceRoots} {res : Resolution} {r : Run}

theorem isIn_start (t : FileTree) (c : RunConfig) : (Run.start t c).IsIn .start where
  state_eq := rfl
  trace_eq := rfl
  agrees := {
    package := iff_of_false (by simp [Run.start, RunReport.start]) (by decide)
    loaded := fun h => absurd h (by simp [Run.start, RunReport.start])
    written := fun h => absurd h (by simp [Run.start, RunReport.start])
    digest := fun h => absurd h (by simp [Run.start, RunReport.start]) }

theorem leads_clearPool (h : r.IsIn .start) : (c.clearPool r).Leads .start .staged := by
  unfold clearPool
  split
  · exact h
  · split
    · exact ⟨h.state_eq, h.trace_eq, h.agrees⟩
    · exact h.advance rfl rfl (h.agrees.mono (by decide) (by decide))

theorem leads_resolveImports (h : r.IsIn .staged) :
    (c.resolveImports roots r).Leads .staged .resolved := by
  unfold resolveImports
  dsimp only
  split
  · exact ⟨h.state_eq, h.trace_eq, h.agrees⟩
  · -- the package is told from now on, and nothing else is
    refine h.advance rfl rfl ?_
    exact {
      package := iff_of_true rfl (by decide)
      loaded := fun hl => absurd (h.agrees.loaded hl) (by decide)
      written := fun hw => absurd (h.agrees.written hw) (by decide)
      digest := fun hd => absurd (h.agrees.digest hd) (by decide) }

theorem leads_loadProgram (h : r.IsIn .resolved) :
    (loadProgram roots res r).Leads .resolved .loaded := by
  unfold loadProgram
  dsimp only
  split
  · exact ⟨h.state_eq, h.trace_eq, h.agrees⟩
  · have hagrees : r.report.Agrees (way .loaded) := h.agrees.mono (by decide) (by decide)
    exact h.advance rfl rfl { hagrees with loaded := fun _ => by decide }

theorem leads_fillPool {p : Program} (h : r.IsIn .loaded) :
    (c.fillPool synthesizer p r).Leads .loaded .synthesized := by
  unfold fillPool
  dsimp only
  split
  · exact ⟨h.state_eq, h.trace_eq, h.agrees⟩
  · have hagrees : r.report.Agrees (way .synthesized) := h.agrees.mono (by decide) (by decide)
    exact h.advance rfl rfl { hagrees with written := fun _ => by decide }

theorem leads_checkPool (h : r.IsIn .synthesized) :
    (c.checkPool roots res r).Leads .synthesized .validated := by
  unfold checkPool
  dsimp only
  split
  · exact ⟨h.state_eq, h.trace_eq, h.agrees⟩
  · exact h.advance rfl rfl (h.agrees.mono (by decide) (by decide))

/-- The digest is noted with the end of a run. -/
theorem agrees_noteDigest {trace : List RunState} (h : r.report.Agrees trace) :
    (c.noteDigest r).report.Agrees (trace ++ [.done]) :=
  { h.mono (List.subset_append_left trace [.done]) (by simp) with digest := fun _ => by simp }

/-- **Behind the clearing of the pool, a run goes the whole way.** -/
theorem ends_generate (h : r.IsIn .staged) : (c.generate synthesizer r).Ends (way .done) := by
  unfold generate
  refine (leads_resolveImports h).andThen rfl fun r _ h => ?_
  refine (leads_loadProgram h).andThen rfl fun r _ h => ?_
  refine (leads_fillPool h).andThen rfl fun r _ h => ?_
  refine (leads_checkPool h).andThen rfl fun r _ h => ?_
  have htrace : r.trace ++ [.done] = way .done := by rw [h.trace_eq]; rfl
  exact ⟨rfl, htrace, agrees_noteDigest h.agrees⟩

theorem ends_steps (c : RunConfig) (synthesizer : Synthesizer) (t : FileTree) :
    (c.steps synthesizer (.start t c)).Ends (if c.emptyPool then shortcut else way .done) := by
  unfold steps
  refine (leads_clearPool (isIn_start t c)).andThen rfl fun r _ h => ?_
  split
  · have htrace : r.trace ++ [.done] = shortcut := by rw [h.trace_eq]; rfl
    exact ⟨rfl, htrace, agrees_noteDigest h.agrees⟩
  · exact ends_generate h

end RunConfig

/-! ## Verdicts -/

/-- **A verdict is in order**: its trace begins with the start, each state in it may follow the one before
it, and the last one is the state of the verdict, which is the only terminal one.  An error is told exactly
if the run has been aborted, and the report tells of a state only if it has been passed. -/
structure Verdict.InOrder (v : Verdict) : Prop where
  starts : v.trace.head? = some .start
  moves : v.trace.IsChain fun s next => s.canMove next = true
  ends : v.trace.getLast? = some v.state
  terminal : v.state.isTerminal = true
  running : ∀ s ∈ v.trace.dropLast, s.isTerminal = false
  error_iff : v.error.isSome = true ↔ v.state = .aborted
  package_iff : v.report.package.isSome = true ↔ .resolved ∈ v.trace
  loaded : v.report.loadedPackages ≠ [] ∨ v.report.warnings ≠ 0 → .loaded ∈ v.trace
  written : v.report.models ≠ [] ∨ v.report.files ≠ [] → .synthesized ∈ v.trace
  digest : v.report.digest.isSome = true → v.state = .done

/-- **A run that ends in a terminal state** behind others that are not terminal is in order. -/
theorem Run.inOrder_verdict {r : Run} {before : List RunState} {last : RunState} {error : Option RunError}
    (hstate : r.state = last) (htrace : r.trace = before ++ [last]) (hagrees : r.report.Agrees r.trace)
    (hstarts : (before ++ [last]).head? = some .start)
    (hmoves : (before ++ [last]).IsChain fun s next => s.canMove next = true)
    (hterminal : last.isTerminal = true) (hrunning : ∀ s ∈ before, s.isTerminal = false)
    (herror : error.isSome = true ↔ last = .aborted) : (r.verdict error).InOrder where
  starts := by
    change r.trace.head? = some .start
    rwa [htrace]
  moves := by
    change r.trace.IsChain fun s next => s.canMove next = true
    rwa [htrace]
  ends := by
    change r.trace.getLast? = some r.state
    rw [htrace, hstate, List.getLast?_concat]
  terminal := (congrArg RunState.isTerminal hstate).trans hterminal
  running := by
    change ∀ s ∈ r.trace.dropLast, s.isTerminal = false
    rwa [htrace, List.dropLast_concat]
  error_iff := by
    change error.isSome = true ↔ r.state = .aborted
    rwa [hstate]
  package_iff := hagrees.package
  loaded := hagrees.loaded
  written := hagrees.written
  digest := by
    intro hdigest
    have hdone := hagrees.digest hdigest
    rw [htrace, List.mem_append, List.mem_singleton] at hdone
    rcases hdone with hdone | hdone
    · exact absurd (hrunning _ hdone) (by decide)
    · exact hstate.trans hdone.symm

/-- A run that is aborted on its way is in order. -/
theorem Run.IsIn.inOrder_aborted {r : Run} {s : RunState} (h : r.IsIn s) (hs : s.isTerminal = false)
    (e : RunError) : ((r.advance .aborted).verdict (some e)).InOrder := by
  have htrace : (r.advance .aborted).trace = s.way ++ [.aborted] := by
    change r.trace ++ [.aborted] = _
    rw [h.trace_eq]
  have hagrees : r.report.Agrees (s.way ++ [.aborted]) :=
    h.agrees.mono (List.subset_append_left _ _) (by simp)
  have hmoves : (s.way ++ [RunState.aborted]).IsChain fun s next => s.canMove next = true := by
    cases s <;> first | decide | exact absurd hs (by decide)
  have hrunning : ∀ s' ∈ s.way, s'.isTerminal = false := by
    cases s <;> first | decide | exact absurd hs (by decide)
  exact inOrder_verdict rfl htrace (htrace ▸ hagrees) (by cases s <;> rfl) hmoves rfl hrunning
    (iff_of_true rfl rfl)

/-- And so is one that has come to its end. -/
theorem Run.inOrder_done {r : Run} {trace : List RunState} (hstate : r.state = .done) (htrace : r.trace = trace)
    (hagrees : r.report.Agrees trace) (h : trace = shortcut ∨ trace = way .done) :
    (r.verdict none).InOrder := by
  have herror : (none : Option RunError).isSome = true ↔ RunState.done = .aborted := by simp
  subst htrace
  rcases h with h | h
  · exact @inOrder_verdict r [.start, .staged] .done none hstate h hagrees rfl (by decide) rfl (by decide)
      herror
  · exact @inOrder_verdict r (way .validated) .done none hstate h hagrees rfl (by decide) rfl (by decide)
      herror

namespace RunConfig

/-- **The pool is cleared**: its directory is accepted, and nothing keeps it from being made anew. -/
def ClearsPool (c : RunConfig) (t : FileTree) : Prop :=
  checkPoolDirectory c.poolDir = .ok () ∧ ∃ placeholder, (t.stage c.poolPath).2 = .ok placeholder

theorem clearPool_ok_iff {c : RunConfig} {r : Run} :
    (∃ last u, c.clearPool r = (last, .ok u)) ↔ c.ClearsPool r.tree := by
  unfold clearPool ClearsPool
  split
  · next hcheck => simp [hcheck]
  · next hcheck =>
    split
    · next hstage => simp [hstage]
    · next hstage => simp [hcheck, hstage]

variable {c : RunConfig} {synthesizer : Synthesizer} {t : FileTree} {r : Run}

/-- A run gets through only if its pool is cleared, -/
theorem clearsPool_of_steps (h : c.steps synthesizer (.start t c) = (r, .ok ())) : c.ClearsPool t := by
  obtain ⟨last, u, hclear, -⟩ := Step.andThen_eq_ok_iff.1 h
  exact (clearPool_ok_iff (r := .start t c)).1 ⟨last, u, hclear⟩

/-- and it does then get through, if the pool is to stay empty. -/
theorem steps_of_clearsPool (h : c.ClearsPool t) (hempty : c.emptyPool = true) :
    ∃ r, c.steps synthesizer (.start t c) = (r, .ok ()) := by
  obtain ⟨last, u, hclear⟩ := (clearPool_ok_iff (r := .start t c)).2 h
  unfold steps
  rw [hclear]
  simp only [Step.andThen, hempty, if_true]
  exact ⟨_, rfl⟩

/-- **Every run is in order**, whatever the synthesizer does.  It ends right behind the clearing of the pool
exactly if the pool is cleared and is to stay empty. -/
theorem runWith_inOrder (c : RunConfig) (synthesizer : Synthesizer) (t : FileTree) :
    (c.runWith synthesizer t).InOrder ∧
      ((c.runWith synthesizer t).trace = [.start, .staged, .done] ↔
        c.ClearsPool t ∧ c.emptyPool = true) := by
  have hends := ends_steps c synthesizer t
  rcases hsteps : c.steps synthesizer (.start t c) with ⟨r, e | u⟩
  · obtain ⟨s, hs, hin⟩ := hends.of_error hsteps
    rw [runWith_of_steps_error hsteps]
    refine ⟨hin.inOrder_aborted hs e, iff_of_false (fun htrace => ?_) fun ⟨hclears, hempty⟩ => ?_⟩
    · have hlast : (r.trace ++ [RunState.aborted]).getLast? = some .done := congrArg List.getLast? htrace
      rw [List.getLast?_concat] at hlast
      exact absurd (Option.some.inj hlast) (by decide)
    · obtain ⟨r', hok⟩ := @steps_of_clearsPool c synthesizer t hclears hempty
      exact nomatch congrArg Prod.snd (hsteps.symm.trans hok)
  · obtain ⟨hstate, htrace, hagrees⟩ := hends.of_ok hsteps
    rw [runWith_of_steps_ok hsteps]
    refine ⟨Run.inOrder_done hstate htrace hagrees (by split <;> simp), ?_⟩
    change r.trace = shortcut ↔ _
    rw [htrace]
    cases hempty : c.emptyPool with
    | true => exact iff_of_true rfl ⟨clearsPool_of_steps hsteps, rfl⟩
    | false => exact iff_of_false (by decide) (by simp)

end RunConfig

end ModelPool
