/-!
# Run/State — the steps of a run

    start ─▸ staged ─▸ resolved ─▸ loaded ─▸ synthesized ─▸ validated ─▸ done
               └────────────────────────────────────────────────────────▴
    every state but the last one ─▸ aborted
-/

namespace ModelPool

/-- **The states of a run.** -/
inductive RunState where
  | start
  | staged
  | resolved
  | loaded
  | synthesized
  | validated
  | done
  | aborted
deriving DecidableEq

namespace RunState

/-- The name of a state. -/
def text : RunState → String
  | start => "start"
  | staged => "staged"
  | resolved => "resolved"
  | loaded => "loaded"
  | synthesized => "synthesized"
  | validated => "validated"
  | done => "done"
  | aborted => "aborted"

/-- A run ends in the state. -/
def isTerminal : RunState → Bool
  | done | aborted => true
  | _ => false

/-- **One state may follow another.** -/
def canMove : RunState → RunState → Bool
  | s, aborted => !s.isTerminal
  | start, staged | staged, resolved | staged, done | resolved, loaded | loaded, synthesized
  | synthesized, validated | validated, done => true
  | _, _ => false

end RunState

end ModelPool
