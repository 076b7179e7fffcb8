import ModelPool.Text.Blank

/-!
# Source/Documentation — the line of documentation in a comment

A comment of three slashes, or of a slash and two stars, documents what follows it, unless a fourth
slash or a third star makes it ordinary.  A line comment keeps all blanks but one at its start; the
text of a block comment is trimmed, and closing marks at its end are dropped as often as they stand
there.
-/

namespace ModelPool

open Text

/-- Drops the closing marks that a reversed block comment begins with. -/
def dropClosingMarks : List Char → List Char
  | '/' :: '*' :: r => dropClosingMarks r
  | cs => cs

/-- **The documentation in a comment**, or none for an ordinary comment. -/
def documentation? (comment : String) : Option String :=
  match trimEnd comment.toList with
  | '/' :: '/' :: '/' :: r =>
    match r with
    | '/' :: _ => none
    | ' ' :: line => some (String.ofList line)
    | line => some (String.ofList line)
  | '/' :: '*' :: '*' :: r =>
    match r with
    | '*' :: _ => none
    | block => some (String.ofList (trim (dropClosingMarks block.reverse).reverse))
  | _ => none

end ModelPool
