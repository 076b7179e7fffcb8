import ModelPool.Text.Case

/-!
# Text/SnakeCase — names of types made into names of files

A name in mixed case is lowered, and an underscore is put before each of its words: an upper-case
letter begins a word behind a lower-case letter or a digit, and within a run of upper-case letters
where the next letter is lower-case.
-/

namespace ModelPool.Text

/-- An upper-case letter between these two characters begins a word. -/
def isBoundary (before after : Option Char) : Bool :=
  match before with
  | none => false
  | some p => isLowercase p || p.isDigit || isUppercase p && after.any isLowercase

/-- The image of one character: an upper-case letter is lowered, and all else is kept. -/
def lowered (c : Char) : List Char := if isUppercase c then lowercase c else [c]

/-- What has been written, with the image of one more character between two others.  An underscore
comes before it where a word begins, unless one has just been written. -/
def snakeStep (out : List Char) (before : Option Char) (c : Char) (after : Option Char) : List Char :=
  if isUppercase c && isBoundary before after && out.getLast? != some '_' then
    out ++ '_' :: lowered c
  else out ++ lowered c

/-- What has been written, with the image of a text that stands behind a character. -/
def snakeFrom (out : List Char) (before : Option Char) : List Char → List Char
  | [] => out
  | c :: r => snakeFrom (snakeStep out before c r.head?) (some c) r

/-- **A name in snake case.** -/
def snakeCase (name : String) : String := String.ofList (snakeFrom [] none name.toList)

end ModelPool.Text
