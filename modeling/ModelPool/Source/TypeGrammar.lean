import ModelPool.Source.Group
import ModelPool.Segments

/-!
# Source/TypeGrammar — reading types, type parameters and parameters

The readers for all that a signature is written with.  A type is first read without a `+` at its own
level, which binds loosest; a type with one is kept as text.  A path has type arguments of its own
only if they stand at its end: any other path is the text between its `::`, brackets and comments
included.

Every reader takes a bound on the depth of its recursion.  Each call passes on a smaller one, and the
callers start from a multiple of the number of tokens, which no nesting can use up.
-/

namespace ModelPool.Source

open ModelPool.Text

/-- The types that are words of the language. -/
def primitiveTypes : List String :=
  ["u8", "i8", "u16", "i16", "u32", "i32", "u64", "i64", "u128", "i128", "isize", "usize", "f32",
    "f64", "bool", "str", "char"]

/-- Words that may begin a path but are no type by themselves. -/
def pathKeywords : List String := ["self", "super", "crate"]

/-- Words with a meaning elsewhere, which name a type only together with what follows them. -/
def reservedWords : List String := ["default", "union"]

/-- Words before `fn`. -/
def functionModifiers : List String := ["async", "default", "const", "unsafe"]

/-- **What has been read of a path.**  Only some forms are types as they stand: a path that ends in a
keyword, in a reserved word or in arguments behind `::` has to go on. -/
inductive PathForm where
  | keyword
  | reserved
  | opened
  | primitive
  | lone
  | joined
  | generic
  | function
  | invocation
deriving DecidableEq

namespace PathForm

/-- The path may stand as a type. -/
def isComplete : PathForm → Bool
  | keyword | reserved | opened => false
  | _ => true

/-- The path names something by words alone. -/
def isPlain : PathForm → Bool
  | lone | joined => true
  | _ => false

/-- Arguments may follow the path. -/
def takesArguments (f : PathForm) : Bool := f.isPlain || f == reserved

/-- The path may bound a trait object. -/
def isBound : PathForm → Bool
  | lone | joined | generic | function => true
  | _ => false

end PathForm

namespace Reader

/-- The text since an earlier place, without the blanks around it. -/
def trimmedSince (start : Cursor) : Reader String := return trimmed (← since start)

/-- A type kept as text, from an earlier place on. -/
def verbatimSince (start : Cursor) : Reader TypeExpr := return .verbatim (← trimmedSince start)

/-- Moves over the words before `fn`, and the name of a calling convention. -/
def skipFunctionModifiers : Nat → Reader Unit
  | 0 => failure
  | n + 1 => do
    let ahead ← text
    if functionModifiers.contains ahead then
      skip
      skipFunctionModifiers n
    else if ahead == "extern" then
      skip
      let _ ← take? .text
      skipFunctionModifiers n

/-- A function type without a trait is ahead. -/
def atFunctionPointer : Reader Bool := do
  let (first, second) ← textPair
  let begins (s : String) : Bool := s == "fn" || s == "extern" || functionModifiers.contains s
  if first == "default" then return begins second
  else return begins first

/-- A receiver without a type. -/
def receiver : Reader (List TypeExpr) := do
  let _ ← optional "&"
  let _ ← take? .lifetime
  let _ ← optional "mut"
  expect "self"
  let ahead ← text
  if ahead == "," || ahead == ")" then return [] else failure

/-- The mark of further arguments. -/
def further : Reader (List TypeExpr) := do
  expect "..."
  return []

mutual

/-- **A type**; with a `+` at its own level it is kept as text. -/
def type : Nat → Reader TypeExpr
  | 0 => failure
  | n + 1 => do
    let start ← get
    if (← take? .lifetime).isSome then
      if (← text) == "+" then
        furtherBounds n
        verbatimSince start
      else failure
    else
      let found ← bareType n
      if (← text) == "+" then
        furtherBounds n
        verbatimSince start
      else return found

/-- The bounds behind a first one, each with its `+`. -/
def furtherBounds : Nat → Reader Unit
  | 0 => failure
  | n + 1 => do
    if ← optional "+" then
      bound n
      furtherBounds n

/-- One bound: a lifetime, a type, or a type for all lifetimes. -/
def bound : Nat → Reader Unit
  | 0 => failure
  | n + 1 => do
    if (← take? .lifetime).isSome then return ()
    if ← optional "use" then
      expect "<"
      let _ ← list ">" n (do let _ ← take? .lifetime; let _ ← take? .word)
    else
      if ← optional "for" then
        let _ ← typeParameters n
      let _ ← bareType n

/-- A colon and at least one bound. -/
def bounds : Nat → Reader Unit
  | 0 => failure
  | n + 1 => do
    expect ":"
    bound n
    furtherBounds n

/-- A type without a `+` at its own level. -/
def bareType : Nat → Reader TypeExpr
  | 0 => failure
  | n + 1 => do
    let start ← get
    if ← atFunctionPointer then
      functionPointer n
      verbatimSince start
    else
      match ← text with
      | "&" =>
        skip
        let lifetime ← take? .lifetime
        let mutable ← optional "mut"
        let inner ← bareType n
        return .reference (lifetime.map fun l => String.ofList (l.toList.dropWhile (· == '\'')))
          mutable inner
      | "*" =>
        skip
        if !(← optional "const") then expect "mut"
        let _ ← bareType n
        verbatimSince start
      | "(" =>
        skip
        if ← optional ")" then return .tuple []
        else return .tuple (← list1 ")" n (type n))
      | "[" =>
        skip
        let element ← type n
        if ← optional ";" then
          let before ← get
          if !(← skipUntil [] n) then failure
          let length ← trimmedSince before
          expect "]"
          return .array element length
        else
          expect "]"
          return .slice element
      | "!" =>
        skip
        verbatimSince start
      | "?" =>
        skip
        let _ ← bareType n
        verbatimSince start
      | "dyn" =>
        skip
        return .traitObject "dyn" (← objectBound n true)
      | "impl" =>
        skip
        if ← optional "for" then
          let _ ← typeParameters n
        return .traitObject "impl" (← objectBound n false)
      | "for" =>
        skip
        let _ ← typeParameters n
        if ← atFunctionPointer then functionPointer n
        else
          let (form, _) ← path n
          if form ≠ .function then failure
        verbatimSince start
      | _ => return (← path n).2

/-- The bound behind `dyn` or `impl`: the first may hold for all lifetimes, the second may be lifted
or begin with a lifetime. -/
def objectBound : Nat → Bool → Reader TypeExpr
  | 0, _ => failure
  | n + 1, isDyn => do
    let start ← get
    if ← atFunctionPointer then bareType n
    else
      match ← text, isDyn with
      | "for", true =>
        skip
        let _ ← typeParameters n
        let _ ← bareType n
        verbatimSince start
      | "?", false => bareType n
      | "(", _ =>
        match ← bareType n with
        | .tuple [] => failure
        | found => return found
      | _, _ =>
        if !isDyn && (← kind?) = some .lifetime then type n
        else
          let (form, found) ← path n
          if form.isBound then return found else failure

/-- A function type that is no trait: modifiers, `fn`, parameters and perhaps a result. -/
def functionPointer : Nat → Reader Unit
  | 0 => failure
  | n + 1 => do
    skipFunctionModifiers n
    expect "fn"
    let _ ← parameters n
    if ← optional "->" then
      let _ ← bareType n

/-- **A path** with its form. -/
def path : Nat → Reader (PathForm × TypeExpr)
  | 0 => failure
  | n + 1 => do
    let start ← get
    match ← text with
    | "<" =>
      skip
      let _ ← type n
      if ← optional "as" then
        let _ ← type n
      expect ">"
      pathFrom n start .opened (.path [] [])
    | "::" => pathFrom n start .opened (.path [] [])
    | _ =>
      if let some name ← take? .variable then
        return ← pathFrom n start .primitive (.verbatim name)
      let first ← word
      let form : PathForm :=
        if pathKeywords.contains first then .keyword
        else if primitiveTypes.contains first then .primitive
        else if reservedWords.contains first then .reserved
        else .lone
      pathFrom n start form (.path [first] [])

/-- The rest of a path that began at `start` and has been read up to here. -/
def pathFrom : Nat → Cursor → PathForm → TypeExpr → Reader (PathForm × TypeExpr)
  | 0, _, _, _ => failure
  | n + 1, start, form, soFar => do
    let (ahead, second) ← textPair
    if ahead == "::" then
      skip
      if second == "<" then
        if !form.takesArguments then failure
        let _ ← typeArguments n
        pathFrom n start .opened soFar
      else
        let name ← word
        let whole := splitPath (← since start)
        pathFrom n start (if name == "super" then .keyword else .joined) (.path whole [])
    else if ahead == "<" then
      match form.takesArguments, soFar with
      | true, .path segments _ =>
        let args ← typeArguments n
        pathFrom n start .generic (.path segments args)
      | _, _ => failure
    else if ahead == "(" && form.isPlain then
      let _ ← parameters n
      if ← optional "->" then
        let _ ← bareType n
      return (.function, ← verbatimSince start)
    else if ahead == "!" && form.takesArguments && (closingBracket? second).isSome then
      skip
      macroArguments
      return (.invocation, ← verbatimSince start)
    else if form.isComplete then return (form, soFar)
    else failure

/-- Type arguments in angle brackets; lifetimes are left out. -/
def typeArguments : Nat → Reader (List TypeExpr)
  | 0 => failure
  | n + 1 => do
    expect "<"
    return (← list1 ">" n (typeArgument n)).flatten

/-- One argument: a type, a constant, or a type given to an associated name.  Bounds behind it count
as an argument of their own. -/
def typeArgument : Nat → Reader (List TypeExpr)
  | 0 => failure
  | n + 1 => do
    let start ← get
    let ahead ← text
    let kind ← kind?
    let found ←
      if kind = some .lifetime then
        let later := start.forward
        if (later.ahead?.map Token.text) = some "+" then
          let t ← type n
          pure [t]
        else
          skip
          pure []
      else if kind = some .number || kind = some .text || kind = some .character
          || ahead == "true" || ahead == "false" then
        skip
        let t ← verbatimSince start
        pure [t]
      else if ahead == openBrace then
        block
        let t ← verbatimSince start
        pure [t]
      else
        let t ← type n
        match t, (← text) == "=" with
        | .path [_] _, true =>
          skip
          let _ ← type n
          let t ← verbatimSince start
          pure [t]
        | _, true => failure
        | _, false => pure [t]
    let behind ← get
    if (← text) == ":" then
      bounds n
      return found ++ [← verbatimSince behind]
    else return found

/-- **Type parameters in angle brackets** — the names of types and constants; lifetimes are left
out. -/
def typeParameters : Nat → Reader (List String)
  | 0 => failure
  | n + 1 => do
    expect "<"
    return (← list1 ">" n (typeParameter n)).flatten

/-- One type parameter.  With both a bound and a default, the bound belongs to the name. -/
def typeParameter : Nat → Reader (List String)
  | 0 => failure
  | n + 1 => do
    skipAttributes n
    if (← take? .variable).isSome then return []
    else if (← take? .lifetime).isSome then
      if (← text) == ":" then bounds n
      return []
    else if (← text) == "const" then
      skip
      let name ← word
      expect ":"
      let _ ← type n
      if ← optional "=" then
        if (← text) == openBrace then block
        else
          let _ ← optional "-"
          skip
      return [name]
    else
      let start ← get
      let name ← word
      if (← text) == ":" then bounds n
      let bounded ← trimmedSince start
      if ← optional "=" then
        let _ ← type n
        return [bounded]
      else return [name]

/-- **Parameters in parentheses** — the types of those that have a pattern; receivers without a type,
types alone and the mark of further arguments are left out. -/
def parameters : Nat → Reader (List TypeExpr)
  | 0 => failure
  | n + 1 => do
    expect "("
    let found ← if ← optional "," then pure [] else entries ")" (parameter n) n
    expect ")"
    return found.flatten

/-- One parameter. -/
def parameter : Nat → Reader (List TypeExpr)
  | 0 => failure
  | n + 1 => do
    if (← text) == "#" then
      let _ ← attributeText n false
    receiver <|> further <|> typedParameter n <|> (do let _ ← type n; return [])

/-- A pattern with its type. -/
def typedParameter : Nat → Reader (List TypeExpr)
  | 0 => failure
  | n + 1 => do
    pattern n
    expect ":"
    if ← optional "..." then return []
    else return [← type n]

/-- A pattern with its alternatives. -/
def pattern : Nat → Reader Unit
  | 0 => failure
  | n + 1 => do
    let _ ← optional "|"
    plainPattern n
    if (← text) == "|" then pattern n

/-- A pattern without alternatives at its own level. -/
def plainPattern : Nat → Reader Unit
  | 0 => failure
  | n + 1 => do
    let ahead ← text
    let kind ← kind?
    if ahead == "(" || ahead == "[" then group false
    else if ahead == "&" || ahead == "mut" || ahead == "ref" || ahead == "..=" then
      skip
      plainPattern n
    else if ahead == ".." then skip
    else if ahead == "-" then
      skip
      let _ ← take .number
      patternRange n
    else if kind = some .number || kind = some .text || kind = some .character then
      skip
      patternRange n
    else if ahead == "<" || ahead == "::" || kind = some .word then
      valuePath n
      let (next, second) ← textPair
      if next == "@" then
        skip
        plainPattern n
      else if next == "(" || next == openBrace then group false
      else if next == "!" && (closingBracket? second).isSome then
        skip
        macroArguments
      else patternRange n
    else failure

/-- The upper end of a range, if there is one. -/
def patternRange : Nat → Reader Unit
  | 0 => failure
  | n + 1 => do
    let ahead ← text
    if ahead == "..=" || ahead == ".." || ahead == "..." then
      skip
      plainPattern n <|> pure ()

/-- The path of a value or of a pattern, where arguments stand behind a `::`. -/
def valuePath : Nat → Reader Unit
  | 0 => failure
  | n + 1 => do
    if ← optional "<" then
      let _ ← type n
      if ← optional "as" then
        let _ ← type n
      expect ">"
    else if (← text) != "::" then
      if (← take? .variable).isNone then
        let _ ← word
    valueSegments n

/-- The segments of such a path behind the first. -/
def valueSegments : Nat → Reader Unit
  | 0 => failure
  | n + 1 => do
    if ← optional "::" then
      if (← text) == "<" then
        let _ ← typeArguments n
      else
        let _ ← word
      valueSegments n

end

/-- The conditions behind `where`, up to a body or the end of the item. -/
def wherePredicates : Nat → Reader Unit
  | 0 => failure
  | n + 1 => do
    let ahead ← text
    if ahead == openBrace || ahead == ";" || ahead == "=" || (← atEnd) then return ()
    if (← take? .lifetime).isNone then
      if ← optional "for" then
        let _ ← typeParameters n
      let _ ← bareType n
    bounds n
    if ← optional "," then wherePredicates n

/-- A `where` clause, if there is one. -/
def whereClause (fuel : Nat) : Reader Unit := do
  if ← optional "where" then wherePredicates fuel

/-- Type parameters, if there are any. -/
def typeParameters? (fuel : Nat) : Reader (List String) := do
  if (← text) == "<" then typeParameters fuel else return []

end Reader

end ModelPool.Source
