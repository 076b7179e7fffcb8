import ModelPool.Files.Path

/-!
# Command/Arguments — the arguments of the command

Arguments are read from the left.  What is asked first counts: help that stands before a mistake is
given, and behind one it is not.  Each option may be given once, and its value has to be there.
-/

namespace ModelPool

/-- **What the command is asked to do.** -/
structure Arguments where
  projectDir : Option FilePath
  testModule : Option FilePath
  emptyPool : Bool
  root : Option FilePath
  settings : Option FilePath
  report : Option FilePath
  verbose : Bool
deriving DecidableEq

/-- Why arguments ask for no run. -/
inductive Refusal where
  | help
  | version
  | misuse
deriving DecidableEq

/-- An option with a value. -/
inductive ValueOption where
  | test
  | root
  | settings
  | report
deriving DecidableEq

/-- An option without a value. -/
inductive Flag where
  | empty
  | verbose
  | help
  | version
deriving DecidableEq

namespace Arguments

/-- No arguments. -/
def none : Arguments := ⟨.none, .none, false, .none, .none, .none, false⟩

/-- The directory of the project. -/
def project (a : Arguments) : FilePath := a.projectDir.getD ⟨"."⟩

/-! ## Names of options -/

/-- The options with values, by their long names. -/
def longValueOption? (name : String) : Option ValueOption :=
  [("test", ValueOption.test), ("root", .root), ("config", .settings), ("report-json", .report)].lookup
    name

/-- The options without values, by their long names. -/
def longFlag? (name : String) : Option Flag :=
  [("empty", Flag.empty), ("verbose", .verbose), ("help", .help), ("version", .version)].lookup name

/-- The options with values, by their letters. -/
def shortValueOption? (letter : Char) : Option ValueOption :=
  if letter = 't' then some .test else .none

/-- The options without values, by their letters. -/
def shortFlag? (letter : Char) : Option Flag :=
  [('v', Flag.verbose), ('h', .help), ('V', .version)].lookup letter

/-! ## Single arguments -/

/-- A path given where none has been, which may not be empty. -/
def setOnce (old : Option FilePath) (text : String) : Except Refusal (Option FilePath) :=
  if old.isSome || text.isEmpty then .error .misuse else .ok (some ⟨text⟩)

/-- A flag given where it has not been. -/
def raiseOnce (old : Bool) : Except Refusal Bool := if old then .error .misuse else .ok true

/-- The arguments with the value of an option. -/
def setOption (a : Arguments) (text : String) : ValueOption → Except Refusal Arguments
  | .test => do return { a with testModule := ← setOnce a.testModule text }
  | .root => do return { a with root := ← setOnce a.root text }
  | .settings => do return { a with settings := ← setOnce a.settings text }
  | .report => do return { a with report := ← setOnce a.report text }

/-- The arguments with a flag. -/
def setFlag (a : Arguments) : Flag → Except Refusal Arguments
  | .empty => do return { a with emptyPool := ← raiseOnce a.emptyPool }
  | .verbose => do return { a with verbose := ← raiseOnce a.verbose }
  | .help => .error .help
  | .version => .error .version

/-- The arguments with the project's directory. -/
def setProject (a : Arguments) (text : String) : Except Refusal Arguments := do
  return { a with projectDir := ← setOnce a.projectDir text }

/-- Arguments none of which is an option. -/
def addProjects (a : Arguments) : List String → Except Refusal Arguments
  | [] => .ok a
  | text :: r => do addProjects (← a.setProject text) r

/-! ## Options -/

/-- **What an argument looks like**: a text, the end of options, a long name with the value behind its
sign of equality, or letters. -/
inductive Form where
  | text
  | endOfOptions
  | long (name : String) (value : Option String)
  | letters (cs : List Char)

/-- What stands before and behind the first sign of equality. -/
def splitValue (cs : List Char) : String × Option String :=
  match cs.dropWhile (· != '=') with
  | [] => (String.ofList cs, .none)
  | _ :: value => (String.ofList (cs.takeWhile (· != '=')), some (String.ofList value))

/-- The form of an argument. -/
def formOf (argument : String) : Form :=
  match argument.toList with
  | ['-', '-'] => .endOfOptions
  | '-' :: '-' :: cs => let (name, value) := splitValue cs; .long name value
  | '-' :: c :: cs => .letters (c :: cs)
  | _ => .text

/-- The next argument can be an option's value. -/
def isValue (argument : String) : Bool :=
  match formOf argument with
  | .text => true
  | _ => false

/-- What options leave to be done: nothing, or the value of the last one to be found in the next
argument. -/
inductive Pending where
  | nothing
  | value (option : ValueOption)

/-- Letters of options; those behind an option with a value are its value. -/
def addLetters (a : Arguments) : List Char → Except Refusal (Arguments × Pending)
  | [] => .ok (a, .nothing)
  | letter :: r =>
    match shortValueOption? letter with
    | some option =>
      match r with
      | [] => .ok (a, .value option)
      | '=' :: value | value => do return (← a.setOption (String.ofList value) option, .nothing)
    | .none =>
      match shortFlag? letter with
      | some flag => do addLetters (← a.setFlag flag) r
      | .none => .error .misuse

/-- An option by its long name. -/
def addLong (a : Arguments) (name : String) (value : Option String) :
    Except Refusal (Arguments × Pending) :=
  match longValueOption? name, longFlag? name, value with
  | some option, _, some text => do return (← a.setOption text option, .nothing)
  | some option, _, .none => .ok (a, .value option)
  | .none, some flag, .none => do return (← a.setFlag flag, .nothing)
  | .none, _, _ => .error .misuse

/-- **Adds arguments from the left.** -/
def add (a : Arguments) (pending : Pending) : List String → Except Refusal Arguments
  | [] =>
    match pending with
    | .nothing => .ok a
    | .value _ => .error .misuse
  | argument :: r =>
    match pending with
    | .value option =>
      if isValue argument then do add (← a.setOption argument option) .nothing r
      else .error .misuse
    | .nothing =>
      match formOf argument with
      | .text => do add (← a.setProject argument) .nothing r
      | .endOfOptions => a.addProjects r
      | .long name value => do
        let (b, next) ← a.addLong name value
        add b next r
      | .letters cs => do
        let (b, next) ← a.addLetters cs
        add b next r

/-- **What arguments ask for.** -/
def parse (arguments : List String) : Except Refusal Arguments := none.add .nothing arguments

end Arguments

end ModelPool
