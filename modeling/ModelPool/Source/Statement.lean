import ModelPool.Source.Fields
import ModelPool.Source.UseTree

/-!
# Source/Statement — reading the statements of a file

A file is a list of statements: comments, attributes, `use` declarations, `impl` blocks, named items,
and whatever declares nothing.  An item is read without the attributes and the documentation before
it, since these are statements of their own.

The same readers serve for what stands inside modules, traits and `impl` blocks, where expressions
are no statements.
-/

namespace ModelPool.Source

/-- **A statement of a file.**  An `item` has no attributes and no documentation yet; `other` stands
for every statement that declares nothing. -/
inductive Statement where
  | comment (text : String)
  | innerAttribute (text : String)
  | outerAttribute (text : String)
  | use (line : Nat) (tree : UseTree)
  | impl (block : ImplBlock)
  | item (item : Item)
  | other

/-- The member that a declaration inside an `impl` block is, if it is one. -/
def Statement.member? : Statement → Option Member
  | item i =>
    match i.kind with
    | .function signature => some (.function i.name signature i.line)
    | .const type => some (.const i.name type i.line)
    | .typeAlias type => some (.type i.name type i.line)
    | _ => none
  | _ => none

/-- What stands before the keyword of an item: its line, and whether it is public. -/
structure Heading where
  line : Nat
  isPublic : Bool

/-- The item that a heading, a name, type parameters and a kind make. -/
def Heading.item (h : Heading) (name : String) (generics : List String) (kind : ItemKind) :
    Statement :=
  .item ⟨name, kind, generics, [], [], h.isPublic, h.line⟩

namespace Reader

/-! ## Lookahead -/

/-- A function begins here: only modifiers stand before `fn`. -/
def atFunction (fuel : Nat) : Reader Bool := do
  let here ← get
  (do
    skipFunctionModifiers fuel
    expect "fn"
    set here
    return true) <|> return false

/-- The word `macro_rules` with an exclamation mark right behind it is ahead. -/
def atMacroRules : Reader Bool := do
  match (← get).passComments.rest with
  | t :: u :: _ => return t.is "macro_rules" && u.is "!" && u.space.isEmpty
  | _ => return false

/-! ## Items without statements inside -/

/-- A function, with a body or a semicolon. -/
def function (fuel : Nat) (h : Heading) : Reader Statement := do
  skipFunctionModifiers fuel
  expect "fn"
  let name ← take .variable <|> word
  let generics ← typeParameters? fuel
  let params ← parameters fuel
  let output ← if ← optional "->" then some <$> type fuel else pure none
  whereClause fuel
  if !(← optional ";") then block
  return h.item name generics (.function ⟨generics, params, output⟩)

/-- A value behind an equals sign, if there is one, and the end of the declaration. -/
def initialValue (fuel : Nat) : Reader Unit := do
  if ← optional "=" then expression fuel true
  close ";"

/-- A constant. -/
def constant (fuel : Nat) (h : Heading) : Reader Statement := do
  expect "const"
  let name ← word
  expect ":"
  let type ← type fuel
  initialValue fuel
  return h.item name [] (.const type)

/-- A static. -/
def static (fuel : Nat) (h : Heading) : Reader Statement := do
  expect "static"
  let (ahead, second) ← textPair
  if ahead == "ref" && second != ":" then skip
  if (← textPair).2 != ":" then expect "mut"
  let name ← word
  expect ":"
  let type ← type fuel
  initialValue fuel
  return h.item name [] (.static type)

/-- A type alias, or the declaration of an associated type, which declares nothing. -/
def typeAlias (fuel : Nat) (h : Heading) : Reader Statement := do
  expect "type"
  let name ← word
  let generics ← typeParameters? fuel
  if (← text) == ":" && !h.isPublic then bounds fuel
  whereClause fuel
  if ← optional "=" then
    let type ← type fuel
    whereClause fuel
    close ";"
    return h.item name generics (.typeAlias type)
  else
    if h.isPublic then failure
    close ";"
    return .other

/-- A struct. -/
def struct (fuel : Nat) (h : Heading) : Reader Statement := do
  expect "struct"
  let name ← word
  let generics ← typeParameters? fuel
  let ahead ← text
  let fields ←
    if ahead == "(" then do
      let fields ← tupleFields fuel
      whereClause fuel
      close ";"
      pure fields
    else if ahead == openBrace || ahead == "where" then do
      whereClause fuel
      namedFields fuel
    else do
      close ";"
      pure .unit
  return h.item name generics (.struct fields)

/-- An enum. -/
def enum (fuel : Nat) (h : Heading) : Reader Statement := do
  expect "enum"
  let name ← word
  let generics ← typeParameters? fuel
  whereClause fuel
  let variants ← variants fuel
  return h.item name generics (.enum variants)

/-- A union. -/
def union (fuel : Nat) (h : Heading) : Reader Statement := do
  expect "union"
  let name ← word
  let generics ← typeParameters? fuel
  whereClause fuel
  let _ ← namedFields fuel
  return h.item name generics .union

/-- A macro given by rules. -/
def macroRules (h : Heading) : Reader Statement := do
  expect "macro_rules"
  expect "!"
  let name ← word
  let braces := (← text) == openBrace
  macroArguments
  if !braces then expect ";"
  return h.item name [] .macroRules

/-- A `use` declaration. -/
def useDeclaration (fuel : Nat) (h : Heading) : Reader Statement := do
  expect "use"
  let tree ← useTree fuel
  close ";"
  return .use h.line tree

/-- The declaration of an external crate. -/
def externCrate : Reader Statement := do
  expect "extern"
  expect "crate"
  let _ ← word
  if ← optional "as" then
    let _ ← word
  expect ";"
  return .other

/-- A `let` declaration. -/
def letDeclaration (fuel : Nat) : Reader Statement := do
  expect "let"
  pattern fuel
  if ← optional ":" then
    let _ ← type fuel
  if ← optional "=" then expression fuel true
  if ← optional "else" then block
  expect ";"
  return .other

/-- A call of a macro that stands by itself. -/
def macroCall (fuel : Nat) : Reader Statement := do
  valuePath fuel
  expect "!"
  macroArguments
  return .other

/-- An expression with a semicolon; one that ends in a block needs none. -/
def expressionStatement (fuel : Nat) : Reader Statement := do
  (do expression fuel true; expect ";") <|> blockExpression fuel
  return .other

/-! ## Statements -/

/-- The trait of an `impl` block, up to the word behind it. -/
def implementedTrait? (fuel : Nat) : Reader (Option TypeExpr) :=
  (do
    let _ ← optional "!"
    let (form, found) ← path fuel
    if form = .function || form = .invocation || form = .primitive then failure
    expect "for"
    return some found) <|> return none

mutual

/-- **A statement**, the first token of which is no comment. -/
def statement : Nat → Bool → Reader Statement
  | 0, _ => failure
  | n + 1, expressions => do
    let line ← line
    let (ahead, second) ← textPair
    if ahead == "#" then
      if second == "!" then return .innerAttribute (← attributeText n true)
      else return .outerAttribute (← attributeText n false)
    else if ahead == ";" || (← kind?) = some .shebang then
      skip
      return .other
    else if ← visibility n then
      match ← declaration? n ⟨line, true⟩ with
      | some found => return found
      | none => failure
    else
      match ← declaration? n ⟨line, false⟩ with
      | some found => return found
      | none =>
        if ahead == "let" then letDeclaration n
        else if ahead == "impl" || ahead == "unsafe" && second == "impl" then implBlock n line
        else if expressions then expressionStatement n <|> macroCall n
        else macroCall n

/-- A declaration that may be public, if the keyword of one is ahead. -/
def declaration? : Nat → Heading → Reader (Option Statement)
  | 0, _ => failure
  | n + 1, h => do
    let (ahead, second) ← textPair
    let followed := (← get).forward.ahead?.map Token.kind = some .word
    if ← atFunction n then some <$> function n h
    else if ← atMacroRules then
      if h.isPublic then failure else some <$> macroRules h
    else
      match ahead with
      | "use" => some <$> useDeclaration n h
      | "const" => if second == openBrace then return none else some <$> constant n h
      | "static" => if followed then some <$> static n h else return none
      | "type" => some <$> typeAlias n h
      | "struct" => some <$> struct n h
      | "enum" => some <$> enum n h
      | "union" => if followed then some <$> union n h else return none
      | "mod" => some <$> moduleItem n h
      | "trait" => some <$> traitItem n h
      | "unsafe" => if second == "trait" then some <$> traitItem n h else return none
      | "extern" =>
        if second == "crate" then some <$> externCrate
        else
          skip
          let _ ← take? .text
          if !(← optional ";") then
            expect openBrace
            let _ ← declarations n
          return some .other
      | _ => return none

/-- The declarations up to a closing brace. -/
def declarations : Nat → Reader (List Statement)
  | 0 => failure
  | n + 1 => do
    if ← closes closeBrace then
      close closeBrace
      return []
    else
      let first ← statement n false
      let others ← declarations n
      return first :: others

/-- A module, declared here or in a file of its own. -/
def moduleItem : Nat → Heading → Reader Statement
  | 0, _ => failure
  | n + 1, h => do
    expect "mod"
    let name ← word
    if ← optional openBrace then
      let _ ← declarations n
    else close ";"
    return h.item name [] .module

/-- A trait. -/
def traitItem : Nat → Heading → Reader Statement
  | 0, _ => failure
  | n + 1, h => do
    let _ ← optional "unsafe"
    expect "trait"
    let name ← word
    let generics ← typeParameters? n
    if (← text) == ":" then bounds n
    whereClause n
    expect openBrace
    let _ ← declarations n
    return h.item name generics .trait

/-- **An `impl` block.** -/
def implBlock : Nat → Nat → Reader Statement
  | 0, _ => failure
  | n + 1, line => do
    let _ ← optional "unsafe"
    expect "impl"
    let generics ← typeParameters? n
    let traitRef ← implementedTrait? n
    let selfType ← type n
    whereClause n
    let members ←
      if ← optional ";" then pure []
      else do
        expect openBrace
        let found ← declarations n
        pure (found.filterMap Statement.member?)
    return .impl ⟨generics, traitRef, selfType, members, line⟩

end

end Reader

end ModelPool.Source
