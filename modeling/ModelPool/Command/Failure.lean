import ModelPool.Run.Engine
import ModelPool.Text.Quoted

/-!
# Command/Failure — what a user is told when a command fails

A failure is told with its message, the cause behind it where there is one, and what may be done about
it.
-/

namespace ModelPool

open Text

/-- **Why a command fails.** -/
inductive Failure where
  | configuration (message : String) (suggestion : Option String)
  | run (error : RunError)
  | access (context : String) (path : Option FilePath)
  | unreadableSettings (file : FilePath) (cause : IoError)
  | malformedSettings (file : FilePath)
  | unwritableReport (file : FilePath) (cause : IoError)

namespace Failure

/-! ## Suggestions -/

/-- What to do about a directory that the pool may not have. -/
def poolDirectorySuggestion : String :=
  "Set [generate] pool_dir to identifier segments below the framework root, e.g. \"pool\"."

/-- What to do about a run that is aborted. -/
def runSuggestion? : RunError → Option String
  | .poolDirectory _ => some poolDirectorySuggestion
  | .resolve (.outsideRoots _) =>
    some "Move the module under the framework root or add its root to [generate] source_roots."
  | .resolve (.package _) =>
    some ("Run poolgen from the project directory or pass it as PROJECT_DIR; "
      ++ "it must contain a config package.")
  | .validation _ =>
    some ("The generated pool does not check. "
      ++ "Run with -v to see the diagnostics of the first pass.")
  | .stage _ | .load _ | .synthesis _ => none

/-- **What may be done about a failure.** -/
def suggestion? : Failure → Option String
  | configuration _ suggestion => suggestion
  | run error => runSuggestion? error
  | access .. | unreadableSettings .. | malformedSettings _ | unwritableReport .. => none

/-- A directory refused for the pool. -/
def ofPoolDirectory (error : PoolDirectoryError) : Failure :=
  configuration error.message (some poolDirectorySuggestion)

/-! ## Messages -/

/-- A path that may be missing. -/
def optionalPathText : Option FilePath → String
  | some p => "Some(" ++ quoted p.text ++ ")"
  | none => "None"

/-- **The message of a failure**, without what lies behind it. -/
def message : Failure → String
  | configuration m _ => "Configuration error: " ++ m
  | run error => "Generation failed: " ++ error.message
  | access context path => "I/O error: " ++ context ++ " (path: " ++ optionalPathText path ++ ")"
  | unreadableSettings file _ => "Failed to read config file: " ++ quoted file.text
  | malformedSettings file => "Failed to parse config file: " ++ quoted file.text
  | unwritableReport file _ => "Failed to write report: " ++ quoted file.text

/-- What lies behind a failure. -/
def cause? : Failure → Option String
  | unreadableSettings _ cause | unwritableReport _ cause => some cause.message
  | malformedSettings _ => some "not a table of settings"
  | configuration .. | run _ | access .. => none

/-- The path that a failure is about, where it is shown on its own. -/
def shownPath? : Failure → Option FilePath
  | access _ path => path
  | _ => none

/-- A text behind a mark, if there is one. -/
def marked (mark : String) : Option String → String
  | some s => mark ++ s
  | none => ""

/-- **A failure as it is shown to a user.** -/
def text (f : Failure) : String :=
  "Error: " ++ f.message ++ marked ": " f.cause? ++ marked "\n\nSuggestion: " f.suggestion?
    ++ marked "\n\nPath: " (f.shownPath?.map fun p => quoted p.text)

end Failure

end ModelPool
