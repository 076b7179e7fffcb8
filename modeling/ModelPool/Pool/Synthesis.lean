import ModelPool.Pool.Emit

/-!
# Pool/Synthesis — filling the pool with sources

A synthesizer makes the sources of a pool from a program: any function that may change the tree, and
tells which models and files it has written.  The usual one writes a file for each model and the
registry.

* `writeAll_nil` — no sources change nothing.
-/

namespace ModelPool

/-- **What a synthesizer has written.** -/
structure Synthesis where
  models : List String
  files : List FilePath
deriving DecidableEq

/-- **A synthesizer** — takes a program and the directory of the pool. -/
abbrev Synthesizer := FileTree → Program → FilePath → FileTree × Except SynthesisError Synthesis

/-- Writes sources into a directory one by one, up to the first that cannot be written; the result is
the paths of the files. -/
def writeAll (dir : FilePath) : FileTree → List (String × String) →
    FileTree × Except SynthesisError (List FilePath)
  | t, [] => (t, .ok [])
  | t, (name, content) :: r =>
    let file := dir.child name
    match t.writeFile file content.toUTF8 with
    | .error e => (t, .error (.unwritable file e))
    | .ok u =>
      let (last, result) := writeAll dir u r
      (last, result.map (file :: ·))

/-- No sources change nothing. -/
theorem writeAll_nil (dir : FilePath) (t : FileTree) : writeAll dir t [] = (t, .ok []) := rfl

/-- The models of a program and the sources of its pool. -/
def poolSources (pool poolName : String) (p : Program) :
    Except SynthesisError (List String × List (String × String)) := do
  let models ← p.merge pool
  let sources ← (Emitter.ofModels pool poolName models).files
  return (models.map MergedModel.name, sources)

/-- **The usual synthesizer** of the pool with an import path and a name. -/
def synthesizePool (pool poolName : String) : Synthesizer := fun t p dir =>
  match poolSources pool poolName p with
  | .error e => (t, .error e)
  | .ok (models, sources) =>
    let (last, result) := writeAll dir t sources
    (last, result.map fun files => ⟨models, files⟩)

end ModelPool
