import ModelPool.Declaration
import ModelPool.Text.Blank

/-!
# Source/Attribute — reading an attribute from its text

The text of an attribute runs from its hash sign to its closing bracket.  Between the brackets stands
its path, and then perhaps arguments: in parentheses, or as a value behind an equals sign.  Whichever
of the two signs comes first decides.
-/

namespace ModelPool

open Text

/-- Drops a last character that is known. -/
def dropLast? (c : Char) (cs : List Char) : Option (List Char) :=
  if cs.getLast? = some c then some cs.dropLast else none

/-- What stands between the brackets of an attribute. -/
def Attribute.inside? (cs : List Char) : Option (List Char) := do
  let body ←
    match trim cs with
    | '#' :: '!' :: r => some r
    | '#' :: r => some r
    | _ => none
  match trim body with
  | '[' :: r => (dropLast? ']' r).map trim
  | _ => none

/-- The arguments of an attribute, from the sign that begins them. -/
def Attribute.arguments? : List Char → Option (Option String)
  | [] => some none
  | '(' :: r => (dropLast? ')' (trimEnd r)).map fun a => some (String.ofList (trim a))
  | _ :: r => some (some (String.ofList (trim r)))

/-- **An attribute from its text** — none for a text without brackets, without a path, or with an
argument list that does not end in its parenthesis. -/
def Attribute.ofText? (text : String) : Option Attribute := do
  let inside ← Attribute.inside? text.toList
  let isPath (c : Char) : Bool := c != '(' && c != '='
  let args ← Attribute.arguments? (inside.dropWhile isPath)
  let name := trim (inside.takeWhile isPath)
  if name.isEmpty then none else some ⟨String.ofList name, args⟩

end ModelPool
