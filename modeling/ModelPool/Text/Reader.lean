/-!
# Text/Reader — reading a text piece by piece

A reader takes some characters off the front of a text and tells what they stand for, or fails.  Of
two alternatives the second starts where the first one did.
-/

namespace ModelPool.Text

/-- **A reader** — from a text to what its beginning stands for, and the rest. -/
abbrev Reader (α : Type) := StateT (List Char) Option α

namespace Reader

/-! ## Characters -/

/-- The next character, which stays. -/
def peek : Reader (Option Char) := fun cs => some (cs.head?, cs)

/-- A character of a class. -/
def satisfying (p : Char → Bool) : Reader Char
  | c :: r => if p c then some (c, r) else none
  | [] => none

/-- A given character. -/
def character (c : Char) : Reader Unit := fun cs => do
  let (_, r) ← satisfying (· == c) cs
  return ((), r)

/-- A given word. -/
def characters : List Char → Reader Unit
  | [] => pure ()
  | c :: r => do character c; characters r

/-- As many characters of a class as there are. -/
def span (p : Char → Bool) : Reader (List Char) := fun cs =>
  some (cs.takeWhile p, cs.dropWhile p)

/-- Characters of a class, of which there has to be one. -/
def span₁ (p : Char → Bool) : Reader (List Char) := do
  let c ← satisfying p
  return c :: (← span p)

/-- Passes over characters of a class. -/
def skip (p : Char → Bool) : Reader Unit := do discard (span p)

/-- The end of the text. -/
def atEnd : Reader Unit
  | [] => some ((), [])
  | _ :: _ => none

/-! ## Repetition -/

/-- What a reader gives, if it does not fail. -/
def maybe {α : Type} (item : Reader α) : Reader (Option α) := (some <$> item) <|> pure none

/-- Repeats a reader until it fails, a number of times at most. -/
def manyUpTo {α : Type} (item : Reader α) : Nat → Reader (List α)
  | 0 => pure []
  | n + 1 => fun cs =>
    match item cs with
    | none => some ([], cs)
    | some (a, r) => (fun (as, rest) => (a :: as, rest)) <$> manyUpTo item n r

/-- **Repeats a reader until it fails.**  A text gives no more pieces than it has characters. -/
def many {α : Type} (item : Reader α) : Reader (List α) := fun cs => manyUpTo item cs.length cs

/-- One or more pieces with a separator between any two. -/
def separated {α : Type} (separator : Reader Unit) (item : Reader α) : Reader (List α) := do
  let first ← item
  return first :: (← many (do separator; item))

/-- **What a whole text stands for.** -/
def readAll? {α : Type} (whole : Reader α) (cs : List Char) : Option α :=
  ((do let a ← whole; atEnd; return a : Reader α).run cs).map Prod.fst

end Reader

end ModelPool.Text
