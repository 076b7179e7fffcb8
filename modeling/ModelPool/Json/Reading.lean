import ModelPool.Json.Value
import ModelPool.Text.Reader

/-!
# Json/Reading — values read from bytes

Reading checks the form of a value: the escapes of a string have to be those of the format, but need
not stand for a text.
-/

namespace ModelPool.Json

open Text Text.Reader

/-! ## Leaves -/

/-- What may stand between the parts of a value. -/
def isSpace (c : Char) : Bool := c == ' ' || c == '\n' || c == '\t' || c == '\r'

/-- Passes over the space between parts. -/
def space : Reader Unit := skip isSpace

/-- A sign of the format, with the space behind it. -/
def sign (c : Char) : Reader Unit := do character c; space

/-- **A string's text as it is written**, up to the quote behind it. -/
def stringBody : Reader (List Char)
  | [] => none
  | '"' :: r => some ([], r)
  | '\\' :: 'u' :: a :: b :: c :: d :: r => do
    let _ ← unit? a b c d
    let (s, rest) ← stringBody r
    return ('\\' :: 'u' :: a :: b :: c :: d :: s, rest)
  | '\\' :: letter :: r => do
    let _ ← shortEscapes.lookup letter
    let (s, rest) ← stringBody r
    return ('\\' :: letter :: s, rest)
  | c :: r =>
    if c < ' ' ∨ c = '\\' then none
    else (stringBody r).map fun (s, rest) => (c :: s, rest)

/-- A string as it is written. -/
def stringLiteral : Reader (List Char) := do character '"'; stringBody

/-- The whole part of a number: a lone zero, or digits that do not start with one. -/
def wholePart : Reader (List Char) :=
  (do character '0'; return ['0']) <|> do
    let first ← satisfying fun c => c.isDigit && c != '0'
    return first :: (← span Char.isDigit)

/-- The digits behind a point. -/
def fraction : Reader (List Char) := do
  character '.'
  return '.' :: (← span₁ Char.isDigit)

/-- An exponent. -/
def exponent : Reader (List Char) := do
  let e ← satisfying fun c => c == 'e' || c == 'E'
  let sign ← maybe (satisfying fun c => c == '+' || c == '-')
  return e :: (sign.toList ++ (← span₁ Char.isDigit))

/-- A number as it is written. -/
def numberLiteral : Reader (List Char) := do
  let minus ← maybe (satisfying (· == '-'))
  let whole ← wholePart
  let fraction ← maybe fraction
  let exponent ← maybe exponent
  return minus.toList ++ whole ++ fraction.getD [] ++ exponent.getD []

/-! ## Values -/

/-- The parts of a list between brackets. -/
def between {α : Type} (opening closing : Char) (item : Reader α) : Reader (List α) := do
  sign opening
  (do character closing; return []) <|> do
    let items ← separated (sign ',') item
    character closing
    return items

/-- **A value** that is nested less deep than a bound, with the space behind it. -/
def value : Nat → Reader Json
  | 0 => failure
  | depth + 1 => do
    let json ←
      (do characters "null".toList; return .null)
      <|> (do characters "true".toList; return .boolean true)
      <|> (do characters "false".toList; return .boolean false)
      <|> .number <$> numberLiteral
      <|> .string <$> stringLiteral
      <|> .array <$> between '[' ']' (value depth)
      <|> .object <$> between '\x7b' '\x7d' (do
        let name ← stringLiteral
        space
        sign ':'
        return (name, ← value depth))
    space
    return json

/-- **The value that bytes stand for.**  No value is nested deeper than it is long. -/
def read? (bytes : ByteArray) : Option Json :=
  readAll? (do space; value (bytes.size + 1)) (ofBytes bytes)

end ModelPool.Json
