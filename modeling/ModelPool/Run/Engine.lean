import ModelPool.Digest.Tree
import ModelPool.Pool.Stage
import ModelPool.Pool.Synthesis
import ModelPool.Program.Load
import ModelPool.Run.Report
import ModelPool.Run.Resolution
import ModelPool.Run.State

/-!
# Run/Engine — one run from the clearing of the pool to its check

A run clears the pool, finds out what to load, loads it tolerantly, fills the pool, and loads all
again, now strictly and with the pool.  The first step that fails aborts it.

A step takes the run so far and gives the run behind it, with the error that aborts it or without; so
what was reached before an error is still told.

* `Step.andThen` — the next step is only made where the last one has not failed.
-/

namespace ModelPool

/-! ## Errors -/

/-- **Why a run is aborted.** -/
inductive RunError where
  | poolDirectory (error : PoolDirectoryError)
  | stage (error : StageError)
  | resolve (error : ResolveError)
  | load (error : LoadError)
  | synthesis (error : SynthesisError)
  | validation (error : LoadError)

/-- The text of an error. -/
def RunError.message : RunError → String
  | poolDirectory e => e.message
  | stage e => e.message
  | resolve e => e.message
  | load e => "error while loading program: " ++ e.message
  | synthesis e => "error while generating pool: " ++ e.message
  | validation e => "generated code does not check: " ++ e.message

/-! ## Runs -/

/-- **A run so far**: the tree, the state it is in, the states passed, the report, and the text of its
progress. -/
structure Run where
  tree : FileTree
  state : RunState
  trace : List RunState
  report : RunReport
  progress : String

namespace Run

/-- The run before its first step. -/
def start (t : FileTree) (c : RunConfig) : Run := ⟨t, .start, [.start], .start c.poolPath, ""⟩

/-- The run in its next state. -/
def advance (r : Run) (s : RunState) : Run := { r with state := s, trace := r.trace ++ [s] }

/-- The run with more progress told. -/
def tell (r : Run) (text : String) : Run := { r with progress := r.progress ++ text }

/-- The run with one more line of progress. -/
def tellLine (r : Run) (line : String) : Run := r.tell (line ++ "\n")

end Run

/-- **The outcome of a step**: the run behind it, and what it gives or why it aborts the run. -/
abbrev Step (α : Type) := Run × Except RunError α

/-- The next step, where the last one has not failed. -/
def Step.andThen {α β : Type} (s : Step α) (next : Run → α → Step β) : Step β :=
  match s with
  | (r, .error e) => (r, .error e)
  | (r, .ok a) => next r a

/-! ## Verdicts -/

/-- **How a run has ended**: in which state, and through which ones. -/
structure Verdict where
  tree : FileTree
  state : RunState
  trace : List RunState
  error : Option RunError
  report : RunReport
  progress : String

namespace Verdict

/-- The run has reached its end. -/
def isSuccess (v : Verdict) : Bool := v.state == .done

end Verdict

/-- The verdict on a run that ends, with the error that has aborted it. -/
def Run.verdict (r : Run) (error : Option RunError) : Verdict :=
  ⟨r.tree, r.state, r.trace, error, r.report, r.progress⟩

/-! ## Steps -/

namespace RunConfig

/-- Clears the pool, if its directory is one. -/
def clearPool (c : RunConfig) (r : Run) : Step Unit :=
  match checkPoolDirectory c.poolDir with
  | .error e => (r, .error (.poolDirectory e))
  | .ok () =>
    match r.tree.stage c.poolPath with
    | (t, .error e) => ({ r with tree := t }, .error (.stage e))
    | (t, .ok _) => ({ r with tree := t }.advance .staged, .ok ())

/-- Finds out what to load. -/
def resolveImports (c : RunConfig) (roots : SourceRoots) (r : Run) : Step Resolution :=
  let r := r.tellLine "Poolgen Generate\n----------------"
  let r := r.tellLine ("Detected framework root at " ++ c.frameworkRoot.text ++ ".")
  match c.resolve r.tree roots with
  | .error e => (r, .error (.resolve e))
  | .ok res =>
    let r := r.tellLine ("target dir " ++ res.targetDir.text)
    let r := r.tellLine ("Project package found: " ++ res.package ++ ".")
    let report := { r.report with package := some res.package, imports := res.imports.paths }
    ({ r with report := report }.advance .resolved, .ok res)

/-- Loads the program that the pool is made for. -/
def loadProgram (roots : SourceRoots) (res : Resolution) (r : Run) : Step Program :=
  let r := r.tellLine
    "Loading program...\nWarnings may appear here, just ignore them if poolgen doesn't fail."
  match Program.load r.tree roots res.imports .tolerant with
  | .error e => (r, .error (.load e))
  | .ok p =>
    let report := { r.report with
      warnings := p.diagnostics.length
      loadedPackages := p.packages.map Package.importPath }
    ({ r with report := report }.tellLine "Ok" |>.advance .loaded, .ok p)

/-- Fills the pool. -/
def fillPool (c : RunConfig) (synthesizer : Synthesizer) (p : Program) (r : Run) : Step Unit :=
  let r := r.tell "Generating pool..."
  match synthesizer r.tree p c.poolPath with
  | (t, .error e) => ({ r with tree := t }.tellLine ("FAIL " ++ e.message), .error (.synthesis e))
  | (t, .ok output) =>
    let report := { r.report with models := output.models, files := output.files }
    ({ r with tree := t, report := report }.tellLine "Ok" |>.advance .synthesized, .ok ())

/-- The imports of the second load: those of the first, and the pool. -/
def strictImports (c : RunConfig) (imports : ImportSet) : ImportSet :=
  if imports.contains c.pool then imports else imports.push c.pool

/-- Loads the program with the pool. -/
def checkPool (c : RunConfig) (roots : SourceRoots) (res : Resolution) (r : Run) : Step Unit :=
  let r := r.tell "Checking the generated code..."
  match Program.load r.tree roots (c.strictImports res.imports) .strict with
  | .error e => (r.tellLine ("FAIL " ++ e.message), .error (.validation e))
  | .ok _ => (r.tellLine "Ok" |>.advance .validated, .ok ())

/-- Notes the digest of the pool; one that cannot be had is left out. -/
def noteDigest (c : RunConfig) (r : Run) : Run :=
  { r with report := { r.report with digest := (r.tree.digest c.poolPath).toOption } }

/-- The steps behind the clearing of the pool. -/
def generate (c : RunConfig) (synthesizer : Synthesizer) (r : Run) : Step Unit :=
  let roots := c.roots r.tree
  (c.resolveImports roots r).andThen fun r res =>
  (loadProgram roots res r).andThen fun r p =>
  (c.fillPool synthesizer p r).andThen fun r _ =>
  (c.checkPool roots res r).andThen fun r _ =>
  ((c.noteDigest r).tellLine "Pool generated successfully" |>.advance .done, .ok ())

/-- All steps of a run. -/
def steps (c : RunConfig) (synthesizer : Synthesizer) (r : Run) : Step Unit :=
  (c.clearPool r).andThen fun r _ =>
  if c.emptyPool then ((c.noteDigest r).advance .done, .ok ()) else c.generate synthesizer r

/-- **Runs with a synthesizer.** -/
def runWith (c : RunConfig) (synthesizer : Synthesizer) (t : FileTree) : Verdict :=
  match c.steps synthesizer (.start t c) with
  | (r, .ok ()) => r.verdict none
  | (r, .error e) => (r.advance .aborted).verdict (some e)

/-- **Runs with the usual synthesizer.** -/
def run (c : RunConfig) (t : FileTree) : Verdict := c.runWith (synthesizePool c.pool c.poolName) t

end RunConfig

end ModelPool
