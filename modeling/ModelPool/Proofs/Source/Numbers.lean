import ModelPool.Proofs.Source.Words
import ModelPool.Source.Lexer
import Mathlib.Data.List.TakeWhile

/-!
# Proofs/Source/Numbers — the length of a number

    12   .5         e-3        f64
    run  fraction   exponent   suffix

A number takes its digits, a fraction, an exponent and whatever letters follow, each from where the one
before it ends.  Behind the mark of another base it takes letters and digits alike.

* `numberLength_plain`, `numberLength_marked` — the two kinds of numbers.
* `numberLength_append` — digits are a number where no identifier and no point goes on.
-/

namespace ModelPool.Source

open ModelPool.Text

/-! ## Digits -/

/-- A run of a class ends where a character outside the class follows. -/
theorem runLength_append {p : Char → Bool} {r rest : List Char} (hr : r.all p = true)
    (hrest : ∀ c ∈ rest.head?, p c = false) : runLength p (r ++ rest) = r.length := by
  have hstop : rest.takeWhile p = [] := by
    cases rest with
    | nil => rfl
    | cons c rest => simp [hrest c rfl]
  rw [runLength, List.takeWhile_append_of_pos (List.all_eq_true.1 hr), hstop, List.append_nil]

theorem isIdentifierTail_of_isDigit {c : Char} (h : c.isDigit = true) : isIdentifierTail c = true := by
  have hcode : c.toNat < 0x80 := by
    obtain ⟨-, hle⟩ := Bool.and_eq_true_iff.1 h
    exact Nat.lt_of_le_of_lt (UInt32.le_iff_toNat_le.1 (of_decide_eq_true hle)) (by decide)
  simp [isIdentifierTail, hcode, Char.isAlphanum, h]

theorem isIdentifierTail_of_isDigitOrGroup {c : Char} (h : isDigitOrGroup c = true) :
    isIdentifierTail c = true := by
  rcases Bool.or_eq_true_iff.1 h with h | h
  · exact isIdentifierTail_of_isDigit h
  · obtain rfl := beq_iff_eq.1 h
    decide

theorem isWordStart_of_isDigit {c : Char} (h : c.isDigit = true) : isWordStart c = false := by
  obtain ⟨hlow, hhigh⟩ := Bool.and_eq_true_iff.1 h
  have hge := UInt32.le_iff_toNat_le.1 (of_decide_eq_true hlow)
  have hle := UInt32.le_iff_toNat_le.1 (of_decide_eq_true hhigh)
  have hcodes : ∀ n ∈ List.range' 48 10, isWordStart (Char.ofNat n) = false := by decide
  have hc := hcodes c.toNat (List.mem_range'_1.2 ⟨hge, Nat.lt_succ_of_le hle⟩)
  rwa [Char.ofNat_toNat] at hc

/-- A digit begins a number. -/
theorem lexeme_of_isDigit {c : Char} (hc : c.isDigit = true) (r : List Char) :
    lexeme c r = (.number, numberLength c r) := by
  have hstart := isWordStart_of_isDigit hc
  unfold lexeme
  split
  all_goals first
    | exact absurd hc (by decide)
    | simp [hstart, hc]

/-! ## The parts of a number -/

/-- Only a point begins a fraction. -/
theorem fractionLength_of_ne {cs : List Char} (h : ∀ c ∈ cs.head?, c ≠ '.') : fractionLength cs = 0 := by
  unfold fractionLength
  split <;> simp_all

/-- The length of a fraction, given the character behind its point. -/
theorem fractionLength_point {c : Char} (r : List Char) : fractionLength ('.' :: c :: r) =
    if c == '.' || isWordStart c then 0 else runLength isDigitOrGroup (c :: r) + 1 := rfl

/-- The length of an exponent, given the sign or digit behind its mark. -/
theorem exponentLength_cons {e d : Char} (r : List Char) : exponentLength (e :: d :: r) =
    if e == 'e' || e == 'E' then
      if d == '+' || d == '-' then
        if runLength isDigitOrGroup r = 0 then 0 else runLength isDigitOrGroup r + 2
      else if runLength isDigitOrGroup (d :: r) = 0 then 0
      else runLength isDigitOrGroup (d :: r) + 1
    else 0 := by
  rw [exponentLength]
  split
  · split <;> (split <;> simp_all)
  · rfl

/-- What no identifier goes on with marks no exponent. -/
theorem exponentLength_of_tail {cs : List Char} (h : ∀ c ∈ cs.head?, isIdentifierTail c = false) :
    exponentLength cs = 0 := by
  cases cs with
  | nil => rfl
  | cons e r =>
    have hmark : (e == 'e' || e == 'E') = false := by
      have htail := h e rfl
      refine Bool.or_eq_false_iff.2 ⟨?_, ?_⟩ <;> rw [beq_eq_false_iff_ne] <;> rintro rfl <;>
        exact absurd htail (by decide)
    cases r with
    | nil => rfl
    | cons d r =>
      rw [exponentLength_cons, hmark]
      rfl

/-! ## Numbers -/

/-- A length, and one behind it. -/
def lengthThen (f g : List Char → Nat) (cs : List Char) : Nat := f cs + g (cs.drop (f cs))

/-- A length that ends where the other one finds nothing. -/
theorem lengthThen_append {f g : List Char → Nat} {r rest : List Char} (hf : f (r ++ rest) = r.length)
    (hg : g rest = 0) : lengthThen f g (r ++ rest) = r.length := by
  rw [lengthThen, hf, List.drop_left, hg, Nat.add_zero]

/-- The digits of a number, its fraction, its exponent and its suffix. -/
def plainNumberLength : List Char → Nat :=
  lengthThen (lengthThen (lengthThen (runLength isDigitOrGroup) fractionLength) exponentLength)
    (runLength isIdentifierTail)

/-- The marks of other bases. -/
def baseMarks : List Char := ['x', 'b', 'o']

theorem numberLength_marked {d : Char} (hd : d ∈ baseMarks) (r : List Char) :
    numberLength '0' (d :: r) = runLength isIdentifierTail (d :: r) + 1 := by
  simp only [baseMarks, List.mem_cons, List.not_mem_nil, or_false] at hd
  rcases hd with rfl | rfl | rfl <;> exact Nat.add_comm _ _

theorem numberLength_plain {c : Char} {cs : List Char}
    (h : c = '0' → ∀ d r, cs = d :: r → d ∉ baseMarks) :
    numberLength c cs = plainNumberLength cs + 1 := by
  have hdrop : ∀ n, (c :: cs).drop (n + 1) = cs.drop n := fun _ => rfl
  unfold numberLength
  split
  case h_4 =>
    simp only [plainNumberLength, lengthThen, Nat.add_right_comm _ 1, hdrop]
  all_goals next r => exact absurd (h rfl _ r rfl) (by decide)

/-- **Digits are a number** where no identifier and no point goes on. -/
theorem numberLength_append {c : Char} {r rest : List Char} (hr : r.all Char.isDigit = true)
    (hrest : ∀ d ∈ rest.head?, isIdentifierTail d = false ∧ d ≠ '.') :
    numberLength c (r ++ rest) = r.length + 1 := by
  -- the mark of a base is no digit, and an identifier goes on with it
  have hmark : c = '0' → ∀ d q, r ++ rest = d :: q → d ∉ baseMarks := by
    rintro - d q hq hd
    have hclass : d.isDigit = true ∨ isIdentifierTail d = false := by
      cases r with
      | nil => exact .inr (hrest d (by simp_all)).1
      | cons e r => exact .inl (by simp_all)
    have hmarks : baseMarks.all (fun d => !d.isDigit && isIdentifierTail d) = true := by decide
    have hmark := List.all_eq_true.1 hmarks d hd
    rcases hclass with hdigit | htail
    · simp [hdigit] at hmark
    · simp [htail] at hmark
  have htail : ∀ d ∈ rest.head?, isIdentifierTail d = false := fun d hd => (hrest d hd).1
  have hgroups : runLength isDigitOrGroup (r ++ rest) = r.length := by
    refine runLength_append ?_ fun d hd => ?_
    · exact List.all_eq_true.2 fun d hd => Bool.or_eq_true_iff.2 (.inl (List.all_eq_true.1 hr d hd))
    · exact Bool.eq_false_iff.2 fun hgroup =>
        absurd ((htail d hd).symm.trans (isIdentifierTail_of_isDigitOrGroup hgroup)) (by decide)
  have hfraction := fractionLength_of_ne fun d hd => (hrest d hd).2
  have hsuffix : runLength isIdentifierTail rest = 0 := runLength_append (r := []) rfl htail
  rw [numberLength_plain hmark, plainNumberLength]
  exact congrArg (· + 1) (lengthThen_append (lengthThen_append (lengthThen_append hgroups hfraction)
    (exponentLength_of_tail htail)) hsuffix)

end ModelPool.Source
