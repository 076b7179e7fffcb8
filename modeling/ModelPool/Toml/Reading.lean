import ModelPool.Toml.Scalar
import ModelPool.Toml.Value

/-!
# Toml/Reading — documents of TOML

A document is read line by line: headers and entries, with comments behind them.  Only arrays and long
strings go on over several lines.
-/

namespace ModelPool.Toml

open Text Text.Reader Scalar

/-! ## Keys -/

/-- A character of a name without quotes. -/
def isBare (c : Char) : Bool := c.isAlphanum || c == '-' || c == '_'

/-- A name. -/
def name : Reader String := basicString <|> literalString <|> String.ofList <$> span₁ isBare

/-- No key has as many names as this, and no value is nested this deep. -/
def nestingBound : Nat := 80

/-- **A key** — names with dots between them. -/
def key : Reader Key := do
  let names ← separated (character '.') (do space; let n ← name; space; return n)
  if names.length < nestingBound then return ⟨names.dropLast, names.getLast?.getD ""⟩ else failure

/-! ## Values -/

/-- What may stand between the elements of an array. -/
def breaks : Reader Unit := do
  discard (many ((do discard (span₁ isSpace)) <|> newLine <|> comment))

/-- The elements of an array, the last of which may have a comma behind it. -/
def elements (element : Reader Toml) : Reader (List Toml) := do
  character '['
  let found ← maybe (separated (character ',') (do breaks; let v ← element; breaks; return v))
  if found.isSome then discard (maybe (character ','))
  breaks
  character ']'
  return found.getD []

/-- The entries of a table between braces, which stand on one line. -/
def inlineEntries (element : Reader Toml) : Reader Entries := do
  character '\x7b'
  let found ← maybe (separated (character ',') (do
    let k ← key
    character '='
    space
    let v ← element
    space
    return (k, v)))
  space
  character '\x7d'
  StateT.lift ((found.getD []).foldlM (fun es (k, v) => Entries.insertDotted? k.path k.name v es) [])

/-- **A value** in which arrays and tables are nested less deep than a bound. -/
def value : Nat → Reader Toml
  | 0 => failure
  | depth + 1 =>
    .text <$> Scalar.string
    <|> (do characters "true".toList; return .boolean true)
    <|> (do characters "false".toList; return .boolean false)
    <|> .moment <$> Scalar.moment
    <|> .number <$> Scalar.number
    <|> .array <$> elements (value depth)
    <|> .table .closed <$> inlineEntries (value depth)

/-! ## Lines -/

/-- A header between brackets. -/
def bracketed (opening closing : List Char) : Reader Key := do
  characters opening
  let k ← key
  characters closing
  return k

/-- What a line says. -/
def statement : Reader Line :=
  .element <$> bracketed ['[', '['] [']', ']']
  <|> .header <$> bracketed ['['] [']']
  <|> do
    let k ← key
    character '='
    space
    return .entry k (← value nestingBound)

/-- A line, which may be empty. -/
def line : Reader (Option Line) := do
  space
  let said ← maybe statement
  space
  discard (maybe comment)
  return said

/-- The lines of a document.  A mark of byte order at its start is passed over. -/
def lines : Reader (List Line) := do
  discard (maybe (character '\uFEFF'))
  return (← separated newLine line).filterMap id

/-- **The entries of a document.** -/
def read? (text : String) : Option Entries := readAll? lines text.toList >>= ofLines?

end ModelPool.Toml
