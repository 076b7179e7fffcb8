/-!
# Text/Blank — white space, and the three ways a text is freed of it

A blank is a character with the standard's `White_Space` property: six ASCII characters, the next-line
and no-break spaces, and the spaces and separators beyond Latin-1.  Texts are trimmed at one end or
at both, or lose every blank they hold.

* `trimEnd_append_blanks` — blanks after a text do not change its trimmed form.
-/

namespace ModelPool.Text

/-! ## The class of blanks -/

/-- **A blank** — a character with the property `White_Space`. -/
def isBlank (c : Char) : Bool :=
  let n := c.toNat
  (9 ≤ n && n ≤ 13) || n == 0x20 || n == 0x85 || n == 0xA0 || n == 0x1680 ||
    (0x2000 ≤ n && n ≤ 0x200A) || n == 0x2028 || n == 0x2029 || n == 0x202F || n == 0x205F ||
    n == 0x3000

/-! ## Trimming lists of characters -/

/-- Drops the blanks a text begins with. -/
def trimStart (cs : List Char) : List Char := cs.dropWhile isBlank

/-- Drops the blanks a text ends with. -/
def trimEnd : List Char → List Char
  | [] => []
  | c :: r =>
    match trimEnd r with
    | [] => if isBlank c then [] else [c]
    | d :: t => c :: d :: t

/-- Drops the blanks at both ends. -/
def trim (cs : List Char) : List Char := trimEnd (trimStart cs)

/-- Drops every blank. -/
def squeeze (cs : List Char) : List Char := cs.filter fun c => !isBlank c

@[simp] theorem trimEnd_nil : trimEnd [] = [] := rfl

/-- **A text of blanks trims to nothing.** -/
theorem trimEnd_eq_nil {cs : List Char} (h : ∀ c ∈ cs, isBlank c = true) : trimEnd cs = [] := by
  induction cs with
  | nil => rfl
  | cons c r ih =>
    have hr : trimEnd r = [] := ih fun d hd => h d (List.mem_cons_of_mem _ hd)
    simp [trimEnd, hr, h c]

/-- **Blanks after a text do not change its trimmed form.** -/
theorem trimEnd_append_blanks (cs : List Char) {bs : List Char} (h : ∀ c ∈ bs, isBlank c = true) :
    trimEnd (cs ++ bs) = trimEnd cs := by
  induction cs with
  | nil => simpa using trimEnd_eq_nil h
  | cons c r ih => simp [trimEnd, ih]

/-! ## The same for strings -/

/-- A string without the blanks at its ends. -/
def trimmed (s : String) : String := String.ofList (trim s.toList)

end ModelPool.Text
