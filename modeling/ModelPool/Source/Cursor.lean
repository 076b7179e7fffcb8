import ModelPool.Declaration
import ModelPool.Source.Lexer

/-!
# Source/Cursor — reading tokens one by one

A cursor stands between two tokens of a source.  A reader moves it forward or gives up; comments are
passed over wherever a token is asked for.  At the end of the source two closing signs may be missing
without harm to what was read: the cursor then records the error and the reader goes on.

* `text` tells what stands ahead, `skip` and `expect` move over it, `since` gives the text between an
  earlier place and this one.
-/

namespace ModelPool.Source

/-- **A place between two tokens.**  `taken` counts the tokens before it, and `stop` is where the last
of them ends. -/
structure Cursor where
  rest : List Token
  taken : Nat
  stop : Position
  errors : List SyntaxError

/-- The place before the first token. -/
def Cursor.start (ts : List Token) : Cursor := ⟨ts, 0, .origin, []⟩

namespace Cursor

/-- The same place with the comments ahead passed over. -/
def passComments (c : Cursor) : Cursor :=
  let comments := c.rest.takeWhile Token.isComment
  match comments.getLast? with
  | none => c
  | some t => { c with
      rest := c.rest.dropWhile Token.isComment
      taken := c.taken + comments.length
      stop := t.stop }

/-- The token ahead, comments not counting. -/
def ahead? (c : Cursor) : Option Token := c.passComments.rest.head?

/-- The place behind the next token. -/
def forward (c : Cursor) : Cursor :=
  let c := c.passComments
  match c.rest with
  | [] => c
  | t :: r => { c with rest := r, taken := c.taken + 1, stop := t.stop }

/-- The tokens between this place and a later one, without the comments they begin with. -/
def upTo (c later : Cursor) : List Token :=
  (c.rest.take (later.taken - c.taken)).dropWhile Token.isComment

end Cursor

/-- **A reader** — moves the cursor and gives a result, or gives up. -/
abbrev Reader := StateT Cursor Option

namespace Reader

/-- The token ahead. -/
def token? : Reader (Option Token) := return (← get).ahead?

/-- The text of the token ahead; at the end of the source it is empty. -/
def text : Reader String := return match ← token? with | some t => t.text | none => ""

/-- The texts of the next two tokens. -/
def textPair : Reader (String × String) := do
  let second := match (← get).forward.ahead? with | some t => t.text | none => ""
  return (← text, second)

/-- The kind of the token ahead. -/
def kind? : Reader (Option TokenKind) := return (← token?).map Token.kind

/-- Moves over the next token. -/
def skip : Reader Unit := modify Cursor.forward

/-- Moves over the next token if it holds this text, and tells whether it did. -/
def optional (s : String) : Reader Bool := do
  if (← text) == s then skip; return true
  else return false

/-- Moves over the next token, which has to hold this text. -/
def expect (s : String) : Reader Unit := do
  if !(← optional s) then failure

/-- Moves over the next token, which has to be of this kind, and gives its text. -/
def take (kind : TokenKind) : Reader String := do
  match ← token? with
  | some t =>
    if t.kind = kind then skip; return t.text
    else failure
  | none => failure

/-- Moves over the next word. -/
def word : Reader String := take .word

/-- Moves over the next token if it is of this kind, and gives its text. -/
def take? (kind : TokenKind) : Reader (Option String) := do
  if (← kind?) = some kind then return some (← take kind)
  else return none

/-- Only comments are left. -/
def atEnd : Reader Bool := return (← token?).isNone

/-- The line of the next token. -/
def line : Reader Nat := return match ← token? with | some t => t.start.line | none => 0

/-- The text between an earlier place and this one, blanks and comments inside it included. -/
def since (start : Cursor) : Reader String :=
  return String.ofList (Token.spanned (start.upTo (← get)))

/-- The absence of what is to follow is recorded right behind the last token. -/
def missing (what : String) : Reader Unit :=
  modify fun c =>
    let c := c.passComments
    { c with
      errors := c.errors ++ [⟨c.stop.line, c.stop.column, "missing `" ++ what ++ "`"⟩] }

/-- **A closing sign that may be missing at the end of the source.** -/
def close (sign : String) : Reader Unit := do
  if ← atEnd then missing sign
  else expect sign

/-- The sign is ahead, or nothing is. -/
def closes (sign : String) : Reader Bool := return (← atEnd) || (← text) == sign

/-! ## Lists in brackets -/

/-- Entries with a comma behind each, up to the closing sign; the last comma may be left out. -/
def entries {α : Type} (sign : String) (entry : Reader α) : Nat → Reader (List α)
  | 0 => failure
  | n + 1 => do
    if ← closes sign then return []
    let first ← entry
    if ← optional "," then
      let others ← entries sign entry n
      return first :: others
    else return [first]

/-- A list of any length, the opening sign being read: a lone comma stands for the empty list, and
the closing sign may be missing at the end of the source. -/
def list {α : Type} (sign : String) (fuel : Nat) (entry : Reader α) : Reader (List α) := do
  let found ← if ← optional "," then pure [] else entries sign entry fuel
  close sign
  return found

/-- A list of at least one entry. -/
def list1 {α : Type} (sign : String) (fuel : Nat) (entry : Reader α) : Reader (List α) := do
  match ← entries sign entry fuel with
  | [] => failure
  | found =>
    expect sign
    return found

end Reader

end ModelPool.Source
