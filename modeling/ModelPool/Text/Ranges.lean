/-!
# Text/Ranges — character classes as tables of code point ranges

A class of characters of the standard is given by a table.  A row is a range of code points, both
ends included, taken at a step: step 1 takes every code point, step 2 every second one, which is how
the capital and small letters of many scripts alternate.
-/

namespace ModelPool.Text

/-- A range of code points from `first` to `last`, taken every `step`. -/
structure CodeRange where
  first : Nat
  last : Nat
  step : Nat := 1

/-- The code point lies in the range, on one of its steps. -/
def CodeRange.holds (r : CodeRange) (n : Nat) : Bool :=
  r.first ≤ n && n ≤ r.last && (n - r.first) % r.step == 0

/-- A table of whole ranges. -/
def wholeRanges (rows : List (Nat × Nat)) : List CodeRange := rows.map fun r => ⟨r.1, r.2, 1⟩

/-- A table of stepped ranges. -/
def steppedRanges (rows : List (Nat × Nat × Nat)) : List CodeRange :=
  rows.map fun r => ⟨r.1, r.2.1, r.2.2⟩

/-- Some range of the table holds the character. -/
def inRanges (table : List CodeRange) (c : Char) : Bool := table.any (·.holds c.toNat)

end ModelPool.Text
