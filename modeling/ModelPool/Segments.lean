import ModelPool.Text.Blank

/-!
# Segments — paths of names, their text and their parts

A path is a list of segments; its text puts `::` between them.  Reading a path back cuts the text at
every `::`, drops the blanks inside each part, and leaves out empty parts, so a leading `::` is lost.

* `splitColons_append` — a text without a colon, followed by `::`, is cut off as the first part.
-/

namespace ModelPool

open Text

/-- The text of a path. -/
def pathText (segments : List String) : String := "::".intercalate segments

/-- Cuts a text at every `::`, from the left. -/
def splitColons : List Char → List (List Char)
  | [] => [[]]
  | ':' :: ':' :: r => [] :: splitColons r
  | c :: r =>
    match splitColons r with
    | [] => [[c]]
    | part :: parts => (c :: part) :: parts

/-- There is always a first part. -/
theorem splitColons_ne_nil (cs : List Char) : splitColons cs ≠ [] := by
  fun_cases splitColons cs <;> simp_all

/-- **A part without a colon is cut off at the `::` behind it.** -/
theorem splitColons_append {part : List Char} (h : ':' ∉ part) (r : List Char) :
    splitColons (part ++ ':' :: ':' :: r) = part :: splitColons r := by
  induction part with
  | nil => rfl
  | cons c p ih =>
    have hc : c ≠ ':' := fun e => h (e ▸ List.mem_cons_self)
    have hp := ih fun m => h (List.mem_cons_of_mem _ m)
    rw [List.cons_append, splitColons, hp]
    rintro r' rfl
    exact absurd rfl hc

/-- **The segments of a path's text** — blanks inside a segment are dropped, empty segments left
out. -/
def splitPath (text : String) : List String :=
  ((splitColons text.toList).map squeeze).filter (!·.isEmpty) |>.map String.ofList

/-- The segments of a package's path — only the blanks around a segment are dropped. -/
def packageSegments (text : String) : List String :=
  ((splitColons text.toList).map trim).filter (!·.isEmpty) |>.map String.ofList

/-- The last segment of a path's text, as written: what stands behind the last `::`. -/
def lastSegment (text : String) : String :=
  let parts := splitColons text.toList.reverse
  String.ofList (parts.head (splitColons_ne_nil _)).reverse

/-- A letter or digit of ASCII, or the underscore. -/
def isPlain (c : Char) : Bool := c.isAlphanum || c == '_'

/-- **A directory's name made into a package's name** — what is not plain becomes an underscore, a
leading digit gets one in front, and a nameless directory is `main`. -/
def sanitizedName (raw : String) : String :=
  match raw.toList.map fun c => if isPlain c then c else '_' with
  | [] => "main"
  | c :: r => String.ofList (if c.isDigit then '_' :: c :: r else c :: r)

end ModelPool
