import ModelPool.Source.Attribute
import ModelPool.Source.Statement

/-!
# Source/Unit — a whole source: its statements, and what they declare

A source is read statement by statement.  What is no statement is malformed.  A type alias whose type is
only `::` lacks a name, which is supplied: the alias stays, with an error, and its type has no segments.  Any
other line that begins no statement gives an error and counts as a statement that declares nothing.

Attributes and documentation wait for the next item.  They stand in its *stretch*: between it and the
closest statement before it that is no attribute and no comment.

* `itemsFrom_comment`, `itemsFrom_outerAttribute` — what a stretch is lengthened by.
-/

namespace ModelPool

namespace Source

open ModelPool.Text

/-! ## Statements of a source -/

/-- The most characters of a malformed line that its error repeats. -/
def shownCharacters : Nat := 32

/-- The error for a malformed line. -/
def unexpected (p : Position) (text : List Char) : SyntaxError :=
  let shown := trim ((text.takeWhile (· != '\n')).take shownCharacters)
  ⟨p.line, p.column, "unexpected `" ++ String.ofList shown ++ "`"⟩

/-- The heading, the name and the type parameters of a type alias up to the `::` that its type begins with. -/
def Reader.aliasHead (fuel : Nat) : Reader (Heading × String × List String) := do
  let line ← line
  let isPublic ← visibility fuel
  expect "type"
  let name ← word
  let generics ← typeParameters? fuel
  expect "="
  expect "::"
  return (⟨line, isPublic⟩, name, generics)

/-- **A type alias whose type lacks its name**, with the error for that. -/
def Reader.namelessAlias (fuel : Nat) : Reader Statement := do
  let (h, name, generics) ← aliasHead fuel
  missing "type_identifier"
  expect ";"
  return h.item name generics (.typeAlias (.path [] []))

namespace Cursor

/-- The place behind a malformed line that begins with this token, its error recorded. -/
def passLine (c : Cursor) (t : Token) (r : List Token) : Cursor :=
  let onLine (u : Token) : Bool := u.start.line == t.start.line
  let line := t :: r.takeWhile onLine
  { rest := r.dropWhile onLine
    taken := c.taken + line.length
    stop := match line.getLast? with | some u => u.stop | none => c.stop
    errors := c.errors ++ [unexpected t.start (Token.spanned line)] }

/-- The statement ahead and the place behind it. -/
def statement (fuel : Nat) (c : Cursor) (t : Token) (r : List Token) : Statement × Cursor :=
  if t.isComment then
    (.comment t.text, { c with rest := r, taken := c.taken + 1, stop := t.stop })
  else
    match Reader.statement fuel true c with
    | some found => found
    | none => ((Reader.namelessAlias fuel).run c).getD (.other, c.passLine t r)

/-- The statements from this place on, and the errors found up to the end. -/
def statements (fuel : Nat) (c : Cursor) : List Statement × List SyntaxError :=
  match _h : c.rest with
  | [] => ([], c.errors)
  | t :: r =>
    let (first, later) := c.statement fuel t r
    if later.rest.length < c.rest.length then
      let (others, errors) := later.statements fuel
      (first :: others, errors)
    else ([first], later.errors)
termination_by c.rest.length

end Cursor

/-- A depth that no statement of so many tokens can reach. -/
def depthFor (ts : List Token) : Nat := 16 * (ts.length + 1)

/-- **The statements of a source**, and the places where it is malformed. -/
def statements (text : List Char) : List Statement × List SyntaxError :=
  let ts := tokens text
  (Cursor.start ts).statements (depthFor ts)

/-! ## What statements declare -/

/-- **The attributes and the documentation that wait for an item.** -/
structure Stretch where
  attributes : List Attribute
  docs : List String

/-- The stretch that nothing stands in. -/
def Stretch.empty : Stretch := ⟨[], []⟩

/-- The items of statements, the first of which gets what waits already. -/
def itemsFrom : Stretch → List Statement → List Item
  | _, [] => []
  | s, .comment text :: r => itemsFrom { s with docs := s.docs ++ (documentation? text).toList } r
  | s, .outerAttribute text :: r =>
    itemsFrom { s with attributes := s.attributes ++ (Attribute.ofText? text).toList } r
  | s, .innerAttribute _ :: r => itemsFrom s r
  | s, .item i :: r =>
    { i with attributes := s.attributes, docs := s.docs } :: itemsFrom .empty r
  | _, .use _ _ :: r => itemsFrom .empty r
  | _, .impl _ :: r => itemsFrom .empty r
  | _, .other :: r => itemsFrom .empty r

/-- A comment lengthens the stretch by its documentation. -/
theorem itemsFrom_comment (s : Stretch) (text : String) (r : List Statement) :
    itemsFrom s (.comment text :: r) =
      itemsFrom { s with docs := s.docs ++ (documentation? text).toList } r := rfl

/-- An outer attribute lengthens it by itself. -/
theorem itemsFrom_outerAttribute (s : Stretch) (text : String) (r : List Statement) :
    itemsFrom s (.outerAttribute text :: r) =
      itemsFrom { s with attributes := s.attributes ++ (Attribute.ofText? text).toList } r := rfl

/-- The inner attributes among statements. -/
def innerAttributesIn (ss : List Statement) : List Attribute :=
  ss.filterMap fun | .innerAttribute text => Attribute.ofText? text | _ => none

/-- The entries of the `use` declarations among statements. -/
def usesIn (ss : List Statement) : List UseEntry :=
  ss.flatMap fun | .use line tree => tree.entries line | _ => []

/-- The `impl` blocks among statements. -/
def implsIn (ss : List Statement) : List ImplBlock :=
  ss.filterMap fun | .impl block => some block | _ => none

/-- The name that a file gives its package: the arguments of the last attribute meant for that,
unless they are blank. -/
def declaredPackage? (attributes : List Attribute) : Option String := do
  let last ← (attributes.filter (·.name == packageAttribute)).getLast?
  let name := trimmed (← last.args)
  if name.isEmpty then none else some name

end Source

open Source

namespace SourceUnit

/-- What statements declare. -/
def ofStatements (ss : List Statement) (errors : List SyntaxError) : SourceUnit where
  package := declaredPackage? (innerAttributesIn ss)
  innerAttributes := innerAttributesIn ss
  uses := usesIn ss
  items := itemsFrom .empty ss
  impls := implsIn ss
  syntaxErrors := errors

/-- **What a source declares.** -/
def ofCharacters (cs : List Char) : SourceUnit :=
  let (ss, errors) := statements cs
  ofStatements ss errors

/-- What a source declares that is given as a text. -/
def ofText (text : String) : SourceUnit := ofCharacters text.toList

end SourceUnit

end ModelPool
