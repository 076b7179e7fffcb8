import ModelPool.Text.Reader

/-!
# Toml/Scalar — strings, numbers and points in time

Strings stand in double quotes, with escapes, or in single ones, without; three quotes open a string
of several lines.  Numbers may have underscores between digits.
-/

namespace ModelPool.Toml.Scalar

open Text Text.Reader

/-! ## Space and comments -/

/-- White space inside a line. -/
def isSpace (c : Char) : Bool := c == ' ' || c == '\t'

/-- A character that comments and strings may hold: anything but a control, the tab aside. -/
def isVisible (c : Char) : Bool := c == '\t' || (c ≥ ' ' && c != '\x7f')

/-- Passes over white space inside a line. -/
def space : Reader Unit := skip isSpace

/-- The end of a line. -/
def newLine : Reader Unit := do
  discard (maybe (character '\r'))
  character '\n'

/-- A comment, up to the end of its line. -/
def comment : Reader Unit := do character '#'; skip isVisible

/-! ## Strings -/

/-- The number of a hexadecimal digit. -/
def digitValue? (c : Char) : Option Nat :=
  if c.isDigit then some (c.toNat - 48)
  else if 'a' ≤ c ∧ c ≤ 'f' then some (c.toNat - 87)
  else if 'A' ≤ c ∧ c ≤ 'F' then some (c.toNat - 55)
  else none

/-- The number that digits stand for in a base. -/
def numberOf (base : Nat) (digits : List Char) : Nat :=
  digits.foldl (fun n c => n * base + (digitValue? c).getD 0) 0

/-- A number of characters of a class. -/
def exactly (p : Char → Bool) : Nat → Reader (List Char)
  | 0 => pure []
  | n + 1 => do
    let c ← satisfying p
    return c :: (← exactly p n)

/-- A hexadecimal digit. -/
def isHexadecimal (c : Char) : Bool := (digitValue? c).isSome

/-- The character whose code has a number of digits. -/
def codePoint (length : Nat) : Reader Char := do
  let n := numberOf 16 (← exactly isHexadecimal length)
  if n.isValidChar then return Char.ofNat n else failure

/-- The letters of the short escapes, with what they stand for. -/
def shortEscapes : List (Char × Char) :=
  [('b', '\x08'), ('f', '\x0c'), ('n', '\n'), ('r', '\r'), ('t', '\t'), ('\\', '\\'), ('"', '"')]

/-- The character that an escape stands for. -/
def escape : Reader Char := do
  character '\\'
  match (← satisfying fun _ => true) with
  | 'u' => codePoint 4
  | 'U' => codePoint 8
  | letter =>
    match shortEscapes.lookup letter with
    | some c => return c
    | none => failure

/-- The characters that strings in double quotes hold as they are. -/
def isBasic (c : Char) : Bool := isVisible c && c != '"' && c != '\\'

/-- The characters that strings in single quotes hold. -/
def isLiteral (c : Char) : Bool := isVisible c && c != '\''

/-- A string of one line in double quotes. -/
def basicString : Reader String := do
  character '"'
  let pieces ← many (span₁ isBasic <|> List.singleton <$> escape)
  character '"'
  return String.ofList pieces.flatten

/-- A string of one line in single quotes. -/
def literalString : Reader String := do
  character '\''
  let cs ← span isLiteral
  character '\''
  return String.ofList cs

/-- A backslash at the end of a line, with all white space behind it. -/
def continuation : Reader Unit := do
  character '\\'
  space
  newLine
  discard (many ((do discard (span₁ isSpace)) <|> newLine))

/-- A quote that no two others follow. -/
def loneQuote (quote : Char) : Reader Unit := fun cs =>
  match cs with
  | a :: b :: c :: _ => if a = quote ∧ b = quote ∧ c = quote then none else character quote cs
  | _ => character quote cs

/-- **A string of several lines** between three quotes; a line end right behind the first three is
left out, and up to two more quotes may stand before the last three. -/
def longString (quote : Char) (piece : Reader (List Char)) : Reader String := do
  let quotes := [quote, quote, quote]
  characters quotes
  discard (maybe newLine)
  let pieces ← many (piece <|> (do newLine; return ['\n']) <|> (do loneQuote quote; return [quote]))
  characters quotes
  let more ← manyUpTo (do character quote; return quote) 2
  return String.ofList (pieces.flatten ++ more)

/-- A string of several lines in double quotes. -/
def longBasicString : Reader String :=
  longString '"' (span₁ isBasic <|> (do continuation; return []) <|> List.singleton <$> escape)

/-- A string of several lines in single quotes. -/
def longLiteralString : Reader String := longString '\'' (span₁ isLiteral)

/-- **A string** of any of the four forms. -/
def string : Reader String :=
  longBasicString <|> basicString <|> longLiteralString <|> literalString

/-! ## Numbers -/

/-- Digits, with single underscores between them, which are left out. -/
def digits (p : Char → Bool) : Reader (List Char) := do
  let first ← satisfying p
  return first :: (← many (satisfying p <|> (do character '_'; satisfying p)))

/-- A sign. -/
def sign : Reader (List Char) := Option.toList <$> maybe (satisfying fun c => c == '+' || c == '-')

/-- The digits of a whole number, which do not start with a zero unless it stands alone. -/
def wholeDigits : Reader (List Char) := do
  match ← peek with
  | some '0' => List.singleton <$> satisfying (· == '0')
  | _ => digits Char.isDigit

/-- A whole number in decimal digits, which has to fit into 64 bits with its sign. -/
def decimalInteger : Reader (List Char) := do
  let s ← sign
  let ds ← wholeDigits
  let n := numberOf 10 ds
  if n < 1 <<< 63 ∨ (s = ['-'] ∧ n = 1 <<< 63) then return s ++ ds else failure

/-- A whole number in the digits of another base, behind a zero and the letter for that base. -/
def basedInteger (letter : Char) (base : Nat) : Reader (List Char) := do
  characters ['0', letter]
  let ds ← digits fun c => (digitValue? c).any (· < base)
  if numberOf base ds < 1 <<< 63 then return '0' :: letter :: ds else failure

/-- A whole number. -/
def integer : Reader (List Char) :=
  basedInteger 'x' 16 <|> basedInteger 'o' 8 <|> basedInteger 'b' 2 <|> decimalInteger

/-- The digits behind a point. -/
def fraction : Reader (List Char) := do character '.'; digits Char.isDigit

/-- The sign and the digits of an exponent. -/
def exponent : Reader (List Char × List Char) := do
  discard (satisfying fun c => c == 'e' || c == 'E')
  return (← sign, ← digits Char.isDigit)

/-- **A number with digits `ds` times ten to the power `e` is too large** for a float of 64 bits: it is
rounded up beyond the largest one. -/
def overflows (ds : List Char) (e : Int) : Bool :=
  let ds := ds.dropWhile (· == '0')
  let magnitude : Int := ds.length + e
  let n := numberOf 10 ds
  let bound := 1 <<< 1024 - 1 <<< 970
  if n = 0 ∨ magnitude < 309 then false
  else if magnitude > 309 then true
  else if 0 ≤ e then decide (bound ≤ n * Nat.pow 10 e.toNat)
  else decide (bound * Nat.pow 10 (-e).toNat ≤ n)

/-- A number with a point, an exponent, or both.  Only negative ones may be too large. -/
def pointed : Reader (List Char) := do
  let s ← sign
  let whole ← wholeDigits
  let behind ← maybe fraction
  let power ← if behind.isSome then maybe exponent else some <$> exponent
  let fractional := behind.getD []
  let (minus, digits) := power.getD ([], [])
  let magnitude : Int := if minus = ['-'] then -numberOf 10 digits else numberOf 10 digits
  if s ≠ ['-'] ∧ overflows (whole ++ fractional) (magnitude - fractional.length) then failure
  return s ++ whole ++ '.' :: fractional ++ 'e' :: minus ++ digits

/-- Infinity, or what is no number. -/
def unbounded : Reader (List Char) := do
  let s ← sign
  (do characters "inf".toList; return s ++ "inf".toList)
    <|> (do characters "nan".toList; return s ++ "nan".toList)

/-- **A number.** -/
def number : Reader (List Char) := pointed <|> unbounded <|> integer

/-! ## Points in time -/

/-- A number of so many digits between two bounds. -/
def bounded (length low high : Nat) : Reader Nat := do
  let n := numberOf 10 (← exactly Char.isDigit length)
  if low ≤ n ∧ n ≤ high then return n else failure

/-- The days of a month. -/
def daysIn (year month : Nat) : Nat :=
  if month = 2 then
    if year % 4 = 0 ∧ (year % 100 ≠ 0 ∨ year % 400 = 0) then 29 else 28
  else if month = 4 ∨ month = 6 ∨ month = 9 ∨ month = 11 then 30
  else 31

/-- A day of the calendar. -/
def date : Reader Unit := do
  let year ← bounded 4 0 9999
  character '-'
  let month ← bounded 2 1 12
  character '-'
  discard (bounded 2 1 (daysIn year month))

/-- A time of day. -/
def time : Reader Unit := do
  discard (bounded 2 0 23)
  character ':'
  discard (bounded 2 0 59)
  character ':'
  discard (bounded 2 0 60)
  discard (maybe (do character '.'; span₁ Char.isDigit))

/-- The distance from universal time. -/
def offset : Reader Unit :=
  (do discard (satisfying fun c => c == 'Z' || c == 'z')) <|> do
    discard (satisfying fun c => c == '+' || c == '-')
    discard (bounded 2 0 23)
    character ':'
    discard (bounded 2 0 59)

/-- The time behind a day. -/
def timeOfDate : Reader Unit := do
  discard (satisfying fun c => c == 'T' || c == 't' || c == ' ')
  time
  discard (maybe offset)

/-- What a reader passes over. -/
def written (item : Reader Unit) : Reader (List Char) := fun cs => do
  let (_, r) ← item cs
  return (cs.take (cs.length - r.length), r)

/-- **A point in time**: a day, a time, or both. -/
def moment : Reader (List Char) := written ((do date; discard (maybe timeOfDate)) <|> time)

end ModelPool.Toml.Scalar
