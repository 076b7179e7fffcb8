import ModelPool.Source.Cursor

/-!
# Source/Group — passing over what stands between brackets

Bodies, initial values and the arguments of macros are passed over as groups: a bracket, whatever
stands behind it, and the bracket that closes it.  Inside a group every bracket is closed by its own
kind and every token is one of the language.  An attribute is read here as well, since all that is
looked at in it is its path and the sign behind it.
-/

namespace ModelPool.Source

/-- The bracket that closes an opening one. -/
def closingBracket? : String → Option String
  | "(" => some ")"
  | "[" => some "]"
  | "\x7b" => some "\x7d"
  | _ => none

/-- A bracket that closes a group. -/
def isClosingBracket (s : String) : Bool := s == ")" || s == "]" || s == closeBrace

/-- The token may stand in a group; a lone apostrophe only where `quotes` allows it. -/
def Token.fitsGroup (quotes : Bool) (t : Token) : Bool :=
  match t.kind with
  | .stray | .shebang => false
  | .quote => quotes
  | _ => true

/-- **The number of tokens up to the end of the groups that are open**, innermost first. -/
def groupLength (quotes : Bool) : List String → List Token → Option Nat
  | _, [] => none
  | pending, t :: r =>
    if !t.fitsGroup quotes then none
    else
      match closingBracket? t.text with
      | some sign => (groupLength quotes (sign :: pending) r).map (· + 1)
      | none =>
        if isClosingBracket t.text then
          match pending with
          | [] => none
          | [sign] => if sign == t.text then some 1 else none
          | sign :: outer =>
            if sign == t.text then (groupLength quotes outer r).map (· + 1) else none
        else (groupLength quotes pending r).map (· + 1)

namespace Reader

/-- Moves over the next `n` tokens, comments counting. -/
def skipTokens (n : Nat) : Reader Unit :=
  modify fun c => { c with
    rest := c.rest.drop n
    taken := c.taken + n
    stop := match (c.rest.take n).getLast? with | some t => t.stop | none => c.stop }

/-- **Moves over a group**, the opening bracket of which is ahead. -/
def group (quotes : Bool) : Reader Unit := do
  modify Cursor.passComments
  match closingBracket? (← text), groupLength quotes [] (← get).rest with
  | some _, some n => skipTokens n
  | _, _ => failure

/-- Moves over a block of statements. -/
def block : Reader Unit := do
  if (← text) == openBrace then group false else failure

/-- The arguments of a macro, where a lone apostrophe is a token. -/
def macroArguments : Reader Unit := group true

/-- Moves over tokens and groups until one of the texts is ahead, and tells whether it moved. -/
def skipUntil (ends : List String) : Nat → Reader Bool
  | 0 => failure
  | n + 1 => do
    let ahead ← text
    if (← atEnd) || ends.contains ahead || isClosingBracket ahead then return false
    if (closingBracket? ahead).isSome then group false
    else
      match ← token? with
      | some t => if t.fitsGroup false then skip else failure
      | none => failure
    let _ ← skipUntil ends n
    return true

/-! ## Attributes -/

/-- Words joined by `::`, the first of which may be ahead behind a `::` of its own. -/
def plainPath : Nat → Reader Unit
  | 0 => failure
  | n + 1 => do
    let _ ← optional "::"
    let _ ← word
    if (← text) == "::" then plainPath n

/-- What stands between the brackets of an attribute: a path, and behind it a value, a group or
nothing. -/
def attributeBody (fuel : Nat) : Reader Unit := do
  plainPath fuel
  let ahead ← text
  if ahead == "=" then
    skip
    if !(← skipUntil [] fuel) then failure
  else if (closingBracket? ahead).isSome then macroArguments
  expect "]"

/-- **An attribute**, with its text; `inner` attributes have a mark behind the hash sign. -/
def attributeText (fuel : Nat) (inner : Bool) : Reader String := do
  let start ← get
  expect "#"
  if inner then expect "!"
  expect "["
  attributeBody fuel
  since start

/-- Moves over outer attributes. -/
def skipAttributes : Nat → Reader Unit
  | 0 => failure
  | n + 1 => do
    if (← text) == "#" then
      let _ ← attributeText n false
      skipAttributes n

end Reader

end ModelPool.Source
