import ModelPool.Source.Documentation
import ModelPool.Source.Expression

/-!
# Source/Fields — reading the bodies of structs and enums

A named field takes the documentation that stands between it and the field before it.  Attributes
may stand in between and change nothing.  A comment between a field and the comma behind it belongs to
the field that follows.
-/

namespace ModelPool.Source

namespace Reader

/-! ## Visibility -/

/-- The scope in parentheses behind `pub`. -/
def visibilityScope (fuel : Nat) : Reader Unit := do
  expect "("
  if ← optional "in" then valuePath fuel
  else if !pathKeywords.contains (← word) then failure
  expect ")"

/-- **A visibility**, if there is one, and whether there was. -/
def visibility (fuel : Nat) : Reader Bool := do
  let (ahead, second) ← textPair
  if ahead == "pub" then
    skip
    visibilityScope fuel <|> pure ()
    return true
  else if ahead == "crate" && second != "::" then optional "crate"
  else return false

/-! ## Named fields -/

/-- The documentation in the comments ahead, which are passed over. -/
def docsAhead : Reader (List String) := do
  let comments := (← get).rest.takeWhile Token.isComment
  modify Cursor.passComments
  return comments.filterMap fun t => documentation? t.text

/-- The documentation ahead, between and behind attributes. -/
def docsAmongAttributes : Nat → Reader (List String)
  | 0 => failure
  | n + 1 => do
    let docs ← docsAhead
    if (← text) == "#" then
      let _ ← attributeText n false
      return docs ++ (← docsAmongAttributes n)
    else return docs

/-- A field with the documentation found before it. -/
def namedField (fuel : Nat) (docs : List String) : Reader Field := do
  let line ← line
  let _ ← visibility fuel
  let name ← word
  expect ":"
  let type ← type fuel
  return ⟨name, type, docs, line⟩

/-- Named fields up to the closing brace, with documentation found before the first. -/
def fieldsBehind : Nat → List String → Reader (List Field)
  | 0, _ => failure
  | n + 1, found => do
    let found := found ++ (← docsAhead)
    if ← closes closeBrace then return []
    let docs := found ++ (← docsAmongAttributes n)
    let field ← namedField n docs
    let later ← docsAhead
    if ← optional "," then
      let others ← fieldsBehind n later
      return field :: others
    else return [field]

/-- **Named fields in braces.** -/
def namedFields (fuel : Nat) : Reader Fields := do
  expect openBrace
  let fields ← if ← optional "," then pure [] else fieldsBehind fuel []
  close closeBrace
  return .named fields

/-! ## Tuple fields and variants -/

/-- The type of a field without a name. -/
def tupleField (fuel : Nat) : Reader TypeExpr := do
  skipAttributes fuel
  let _ ← visibility fuel
  type fuel

/-- **Fields without names in parentheses.** -/
def tupleFields (fuel : Nat) : Reader Fields := do
  expect "("
  let types ← if ← optional "," then pure [] else entries ")" (tupleField fuel) fuel
  expect ")"
  return .tuple types

/-- A variant with its fields; a value behind it is passed over. -/
def variant (fuel : Nat) : Reader Variant := do
  skipAttributes fuel
  let _ ← visibility fuel
  let name ← word
  let ahead ← text
  let fields ←
    if ahead == openBrace then namedFields fuel
    else if ahead == "(" then tupleFields fuel
    else pure .unit
  if ← optional "=" then expression fuel true
  return ⟨name, fields⟩

/-- **Variants in braces.** -/
def variants (fuel : Nat) : Reader (List Variant) := do
  expect openBrace
  list closeBrace fuel (variant fuel)

end Reader

end ModelPool.Source
