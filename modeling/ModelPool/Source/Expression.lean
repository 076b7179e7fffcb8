import ModelPool.Source.TypeGrammar

/-!
# Source/Expression — telling where an expression ends

Nothing is kept of an expression, but a declaration goes on where its value ends, so the form of an
expression has to be known: operands with operators between them.  What stands between brackets is
passed over as a group.

A literal of a struct is no operand where a block has to follow, as behind `if`.
-/

namespace ModelPool.Source

/-! ## Operators -/

/-- The operators between two operands. -/
def binaryOperators : List String :=
  ["<<=", ">>=", "&&", "||", "<<", ">>", "==", "!=", "<=", ">=", "+=", "-=", "*=", "/=", "%=", "^=",
    "&=", "|=", "..=", "..", "+", "-", "*", "/", "%", "^", "&", "|", "<", ">", "="]

/-- The operators that need no second operand. -/
def rangeOperators : List String := ["..", "..="]

/-- The text of the first `k` tokens, if no white space parts them. -/
def adjoined (ts : List Token) (k : Nat) : String :=
  match ts.take k with
  | [] => ""
  | t :: r => if r.all (·.space.isEmpty) then t.text ++ String.join (r.map Token.text) else ""

/-- The number of tokens that the operator ahead takes, and its text. -/
def operatorAhead? (ts : List Token) : Option (Nat × String) :=
  [3, 2, 1].findSome? fun k =>
    let text := adjoined ts k
    if binaryOperators.contains text then some (k, text) else none

/-- Words before a block or before the parameters of a closure. -/
def blockModifiers : List String := ["unsafe", "async", "const", "move", "try", "gen", "static"]

namespace Reader

/-- Moves over words that go before a block, and gives the text behind them. -/
def behindModifiers : Nat → Cursor → String
  | 0, _ => ""
  | n + 1, c =>
    match c.ahead? with
    | some t => if blockModifiers.contains t.text then behindModifiers n c.forward else t.text
    | none => ""

/-- Skips the words that go before a block. -/
def skipBlockModifiers : Nat → Reader Unit
  | 0 => failure
  | n + 1 => do
    if blockModifiers.contains (← text) then
      skip
      skipBlockModifiers n

/-- **An expression that ends in a block is ahead.** -/
def atBlockExpression : Reader Bool := do
  let (first, second) ← textPair
  let blockWords := [openBrace, "if", "match", "while", "loop", "for"]
  if (← kind?) = some .lifetime then return second == ":"
  else if blockModifiers.contains first then return behindModifiers 4 (← get) == openBrace
  else return blockWords.contains first

mutual

/-- **An expression** — an operand, and then operators with an operand behind each. -/
def expression : Nat → Bool → Reader Unit
  | 0, _ => failure
  | n + 1, structs => do
    operand n structs
    operations n structs

/-- The operators and operands behind a first operand. -/
def operations : Nat → Bool → Reader Unit
  | 0, _ => failure
  | n + 1, structs => do
    if ← optional "as" then
      let _ ← bareType n
      operations n structs
    else
      modify Cursor.passComments
      match operatorAhead? (← get).rest with
      | none => return ()
      | some (k, operator) =>
        skipTokens k
        if rangeOperators.contains operator then expression n structs <|> pure ()
        else expression n structs

/-- An operand with the signs before it and the calls, fields and indices behind it. -/
def operand : Nat → Bool → Reader Unit
  | 0, _ => failure
  | n + 1, structs => do
    let ahead ← text
    let kind ← kind?
    if rangeOperators.contains ahead then
      skip
      operand n structs <|> pure ()
    else if ahead == "-" || ahead == "*" || ahead == "!" then
      skip
      operand n structs
    else if ahead == "&" then
      skip
      if ← optional "raw" then
        if !(← optional "const") then expect "mut"
      else
        let _ ← optional "mut"
      operand n structs
    else if ← atBlockExpression then
      blockExpression n
      selections n
    else if ahead == "|" || behindModifiers 4 (← get) == "|" then
      skipBlockModifiers n
      closure n structs
    else if ahead == "return" || ahead == "break" || ahead == "yield" then
      skip
      let _ ← take? .lifetime
      expression n structs <|> pure ()
    else if ahead == "continue" then
      skip
      let _ ← take? .lifetime
    else if ahead == "let" then
      skip
      pattern n
      expect "="
      operand n false
    else if kind = some .number || kind = some .text || kind = some .character then
      skip
      selections n
    else if ahead == "(" || ahead == "[" then
      group false
      selections n
    else if ahead == "<" || ahead == "::" || kind = some .word || kind = some .variable then
      valuePath n
      let (next, second) ← textPair
      if next == "!" && (closingBracket? second).isSome then
        skip
        macroArguments
      else if next == openBrace && structs then group false
      selections n
    else failure

/-- Calls, fields, indices and question marks behind an operand. -/
def selections : Nat → Reader Unit
  | 0 => failure
  | n + 1 => do
    match ← text with
    | "?" =>
      skip
      selections n
    | "(" | "[" =>
      group false
      selections n
    | "." =>
      skip
      if (← take? .number).isNone then
        let _ ← word
      if (← textPair) == ("::", "<") then
        skip
        let _ ← typeArguments n
      selections n
    | _ => return ()

/-- A closure from its parameters on. -/
def closure : Nat → Bool → Reader Unit
  | 0, _ => failure
  | n + 1, structs => do
    expect "|"
    let _ ← entries "|" (do plainPattern n; if ← optional ":" then let _ ← type n) n
    expect "|"
    if ← optional "->" then
      let _ ← bareType n
      block
    else expression n structs

/-- An expression that ends in a block. -/
def blockExpression : Nat → Reader Unit
  | 0 => failure
  | n + 1 => do
    if (← take? .lifetime).isSome then expect ":"
    match ← text with
    | "if" =>
      skip
      expression n false
      block
      if ← optional "else" then
        if (← text) == "if" then blockExpression n else block
    | "match" | "while" =>
      skip
      expression n false
      block
    | "for" =>
      skip
      pattern n
      expect "in"
      expression n false
      block
    | "loop" =>
      skip
      block
    | _ =>
      skipBlockModifiers n
      block

end

end Reader

end ModelPool.Source
