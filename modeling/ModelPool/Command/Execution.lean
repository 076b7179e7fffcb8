import ModelPool.Command.Arguments
import ModelPool.Command.FrameworkRoot
import ModelPool.Run.ReportFile

/-!
# Command/Execution — the command as a function on trees

The command finds the framework root and its settings, runs, and keeps the report of the run, also of
one that is aborted.
-/

namespace ModelPool

/-- **What a command has done**: the tree, what it has told, and why it failed, if it did. -/
structure Outcome where
  tree : FileTree
  progress : String
  failure : Option Failure

namespace Arguments

/-- The settings asked for, or those at the framework root. -/
def loadSettings (a : Arguments) (t : FileTree) (root : FilePath) : Except Failure Settings :=
  match a.settings with
  | some file => Settings.loadFile t file
  | .none => Settings.load t root

/-- **The run that arguments ask for.** -/
def runConfig (a : Arguments) (t : FileTree) (variableValue : Option FilePath) :
    Except Failure RunConfig := do
  let start := a.testModule.getD a.project
  let root ← FrameworkRoot.detect t a.root variableValue start
  let settings ← a.loadSettings t root
  return ⟨a.project, a.testModule, a.emptyPool, root, settings.poolDir, settings.sourceRoots⟩

/-- Keeps a report where one is asked for. -/
def keepReport (a : Arguments) (t : FileTree) (r : RunReport) : FileTree × Option Failure :=
  match a.report with
  | .none => (t, .none)
  | some file =>
    match r.save t file with
    | (u, .ok ()) => (u, .none)
    | (u, .error cause) => (u, some (.unwritableReport file cause))

/-- **Does what arguments ask for.** -/
def execute (a : Arguments) (t : FileTree) (variableValue : Option FilePath) : Outcome :=
  match a.runConfig t variableValue with
  | .error f => ⟨t, "", some f⟩
  | .ok c =>
    let v := c.run t
    let (u, failure) := a.keepReport v.tree v.report
    ⟨u, v.progress, failure <|> v.error.map Failure.run⟩

end Arguments

/-! ## The command as a whole -/

/-- The command's version. -/
def versionText : String := "poolgen 0.1.0\n"

/-- How the command is called. -/
def usageText : String :=
  "Usage: poolgen [OPTIONS] [PROJECT_DIR]\n\n"
    ++ "  PROJECT_DIR           Project directory whose config package imports the modules\n"
    ++ "  -t, --test DIR        Generate for the module in this directory only\n"
    ++ "      --empty           Only reset the pool to its placeholder\n"
    ++ "      --root DIR        Framework root\n"
    ++ "      --config FILE     Settings to use instead of those at the framework root\n"
    ++ "      --report-json FILE\n"
    ++ "                        Write the run report to this file\n"
    ++ "  -v, --verbose         Enable verbose logging\n"
    ++ "  -h, --help            Print help\n"
    ++ "  -V, --version         Print version\n"

/-- **What a command leaves behind**: the tree, the code it ends with, and its two streams of text. -/
structure Exit where
  tree : FileTree
  code : Nat
  output : String
  errors : String

/-- **Runs the command with arguments**, and the value of the root's variable. -/
def command (t : FileTree) (arguments : List String) (variableValue : Option String) : Exit :=
  match Arguments.parse arguments with
  | .error .help => ⟨t, 0, usageText, ""⟩
  | .error .version => ⟨t, 0, versionText, ""⟩
  | .error .misuse => ⟨t, 2, "", "error: the arguments are not understood\n\n" ++ usageText⟩
  | .ok a =>
    let o := a.execute t (variableValue.map FilePath.mk)
    match o.failure with
    | none => ⟨o.tree, 0, o.progress, ""⟩
    | some f => ⟨o.tree, 1, o.progress, f.text ++ "\n"⟩

end ModelPool
