import ModelPool.Proofs.Source.Literals
import Mathlib.Data.List.Find

/-!
# Proofs/Source/Alike — texts that begin alike

What stands behind a lexeme may tell where it ends, but no lexeme goes on over a blank, a comment or a
closing bracket.  Two texts that are the same up to there are read alike: a run of a class of characters,
a number and a sign have the same length in both.

* `Alike` — the texts.
* `Alike.numberLength_eq`, `Alike.find_joinedPunctuation` — the laws.
-/

namespace ModelPool.Source

open Text

/-! ## Texts that begin alike -/

/-- A character that goes on with no lexeme but a comment. -/
def isApart (c : Char) : Bool := isSpace c || c == '/' || c == ']'

/-- What holds of no blank, slash or bracket holds of no character that parts. -/
theorem apart_eq_false {p : Char → Bool} (h : " \t\n\r\x0b\x0c/]".toList.all (!p ·) = true) {c : Char}
    (hc : isApart c = true) : p c = false := by
  simp only [isApart, isSpace, Bool.or_eq_true, beq_iff_eq] at hc
  rcases hc with ((((((rfl | rfl) | rfl) | rfl) | rfl) | rfl) | rfl) | rfl <;> simp_all

/-- **Two texts begin alike**: they are the same up to a character that parts, where the second one has a
bracket. -/
inductive Alike : List Char → List Char → Prop
  | stop {c : Char} (hc : isApart c = true) (r s : List Char) : Alike (c :: r) (']' :: s)
  | cons (c : Char) {r s : List Char} (h : Alike r s) : Alike (c :: r) (c :: s)

namespace Alike

variable {a b r : List Char} {c : Char} {p : Char → Bool}

theorem append (w : List Char) (h : Alike a b) : Alike (w ++ a) (w ++ b) := by
  induction w with
  | nil => exact h
  | cons c w ih => exact .cons c ih

/-- A character other than a bracket stands in both texts. -/
theorem exists_cons (h : Alike a (c :: r)) (hc : c ≠ ']') : ∃ s, a = c :: s ∧ Alike s r := by
  cases h with
  | stop => exact absurd rfl hc
  | cons _ h => exact ⟨_, rfl, h⟩

/-- A character that does not part stands in both texts. -/
theorem exists_cons_right (h : Alike (c :: r) b) (hc : isApart c = false) :
    ∃ s, b = c :: s ∧ Alike r s := by
  cases h with
  | stop hpart => exact absurd (hpart.symm.trans hc) (by decide)
  | cons _ h => exact ⟨_, rfl, h⟩

theorem isApart_bracket : isApart ']' = true := by decide

/-- **The same length is taken from both texts**, and they go on alike. -/
def Takes (f : List Char → Nat) (a b : List Char) : Prop :=
  f a = f b ∧ Alike (a.drop (f a)) (b.drop (f b))

theorem takes_nothing {f : List Char → Nat} (h : Alike a b) (ha : f a = 0) (hb : f b = 0) :
    Takes f a b := by
  rw [Takes, ha, hb]
  exact ⟨rfl, h⟩

theorem Takes.andThen {f g : List Char → Nat} (hf : Takes f a b)
    (hg : ∀ {a b}, Alike a b → Takes g a b) : Takes (lengthThen f g) a b :=
  ⟨congrArg₂ (· + ·) hf.1 (hg hf.2).1, by simpa only [lengthThen, List.drop_drop] using (hg hf.2).2⟩

/-- A run of a class is taken from both texts. -/
theorem takes_run (hp : ∀ c, isApart c = true → p c = false) (h : Alike a b) :
    Takes (runLength p) a b := by
  induction h with
  | stop hc r s =>
    exact takes_nothing (.stop hc r s) (by simp [runLength, hp _ hc])
      (by simp [runLength, hp _ isApart_bracket])
  | cons c h ih =>
    by_cases hc : p c = true
    · simpa [Takes, runLength, hc] using ih
    · exact takes_nothing (.cons c h) (by simp [runLength, hc]) (by simp [runLength, hc])

/-! ### Numbers -/

theorem tail_of_apart : ∀ c, isApart c = true → isIdentifierTail c = false :=
  fun _ => apart_eq_false (by decide)

theorem group_of_apart : ∀ c, isApart c = true → isDigitOrGroup c = false :=
  fun _ => apart_eq_false (by decide)

theorem groups_of_apart (hc : isApart c = true) : runLength isDigitOrGroup (c :: r) = 0 := by
  simp [runLength, group_of_apart _ hc]

theorem not_point_of_apart (hc : isApart c = true) : (c == '.' || isWordStart c) = false :=
  apart_eq_false (p := fun c => c == '.' || isWordStart c) (by decide) hc

theorem takes_fraction (h : Alike a b) : Takes fractionLength a b := by
  cases h with
  | @stop c hc r s =>
    have hne : c ≠ '.' := by simpa using (Bool.or_eq_false_iff.1 (not_point_of_apart hc)).1
    exact takes_nothing (.stop hc r s) (fractionLength_of_ne (by simpa using hne)) rfl
  | cons c h =>
    by_cases hc : c = '.'
    · subst hc
      -- the character behind the point decides; where none stands, the point is all of the fraction
      cases h with
      | stop hc r s =>
        have hone : ∀ {c} r, isApart c = true → fractionLength ('.' :: c :: r) = 1 := by
          intro c r hc
          rw [fractionLength_point, not_point_of_apart hc, groups_of_apart hc]
          rfl
        rw [Takes, hone _ hc, hone _ isApart_bracket]
        exact ⟨rfl, .stop hc r s⟩
      | @cons d r s h =>
        have hrun := takes_run group_of_apart (.cons d h)
        rw [Takes, fractionLength_point, fractionLength_point, hrun.1]
        refine ⟨rfl, ?_⟩
        split
        · exact .cons '.' (.cons d h)
        · simpa [hrun.1] using hrun.2
    · exact takes_nothing (.cons c h) (fractionLength_of_ne (by simpa using hc))
        (fractionLength_of_ne (by simpa using hc))

theorem takes_exponent (h : Alike a b) : Takes exponentLength a b := by
  cases h with
  | stop hc r s =>
    exact takes_nothing (.stop hc r s) (exponentLength_of_tail (by simpa using tail_of_apart _ hc))
      (exponentLength_of_tail (by simpa using tail_of_apart _ isApart_bracket))
  | @cons e r s h =>
    cases h with
    | stop hc r s =>
      have hnone : ∀ {c : Char} (r : List Char), isApart c = true → exponentLength (e :: c :: r) = 0 := by
        intro c r hc
        have hsign : (c == '+' || c == '-') = false := apart_eq_false (p := fun c => c == '+' || c == '-') (by decide) hc
        rw [exponentLength_cons, hsign, groups_of_apart hc]
        simp
      exact takes_nothing (.cons e (.stop hc r s)) (hnone r hc) (hnone s isApart_bracket)
    | @cons d r s h =>
      have hr := takes_run group_of_apart h
      have hdr := takes_run group_of_apart (.cons d h)
      rw [Takes, exponentLength_cons, exponentLength_cons, hr.1, hdr.1]
      refine ⟨rfl, ?_⟩
      split
      · split
        · split
          · exact .cons e (.cons d h)
          · simpa [hr.1] using hr.2
        · split
          · exact .cons e (.cons d h)
          · simpa [hdr.1] using hdr.2
      · exact .cons e (.cons d h)

end Alike

/-- **A number has the same length** in both texts. -/
theorem Alike.numberLength_eq {a b : List Char} (h : Alike a b) (c : Char) :
    numberLength c a = numberLength c b := by
  have hplain : plainNumberLength a = plainNumberLength b :=
    ((((takes_run group_of_apart h).andThen takes_fraction).andThen takes_exponent).andThen
      (takes_run tail_of_apart)).1
  have hmarks : ∀ d ∈ baseMarks, isApart d = false := by
    have hall : baseMarks.all (!isApart ·) = true := by decide
    simpa using hall
  by_cases hmark : c = '0' ∧ ∃ d r, a = d :: r ∧ d ∈ baseMarks
  · obtain ⟨rfl, d, r, rfl, hd⟩ := hmark
    obtain ⟨s, rfl, -⟩ := h.exists_cons_right (hmarks d hd)
    rw [numberLength_marked hd, numberLength_marked hd, (takes_run tail_of_apart h).1]
  · rw [numberLength_plain, numberLength_plain, hplain]
    · rintro rfl d r rfl hd
      obtain ⟨s, rfl, -⟩ := h.exists_cons (by rintro rfl; exact absurd hd (by decide))
      exact hmark ⟨rfl, d, s, rfl, hd⟩
    · rintro rfl d r rfl hd
      exact hmark ⟨rfl, d, r, rfl, hd⟩

/-! ### Words and signs -/

theorem rawStringStart_eq_none_iff {cs : List Char} :
    rawStringStart cs = none ↔ ∀ r, cs.drop (runLength (· == '#') cs) ≠ '"' :: r := by
  unfold rawStringStart
  dsimp only
  split <;> simp_all

namespace Alike

variable {a b : List Char} {c : Char} {n : Nat}

theorem isPrefixOf_eq {p : List Char} (hp : ∀ d ∈ p, isApart d = false) (h : Alike a b) :
    p.isPrefixOf a = p.isPrefixOf b := by
  induction p generalizing a b with
  | nil => rfl
  | cons d p ih =>
    obtain ⟨hd, hrest⟩ := List.forall_mem_cons.1 hp
    cases h with
    | stop he r s =>
      have hne : ∀ {e}, isApart e = true → (d == e) = false := by
        intro e he
        rw [beq_eq_false_iff_ne]
        rintro rfl
        exact absurd (he.symm.trans hd) (by decide)
      simp [List.isPrefixOf, hne he, hne isApart_bracket]
    | cons c h => rw [List.isPrefixOf, List.isPrefixOf, ih hrest h]

/-- The same sign of several characters begins both texts. -/
theorem find_joinedPunctuation (h : Alike a b) : joinedPunctuation.find? (·.isPrefixOf a) =
    joinedPunctuation.find? (·.isPrefixOf b) := by
  have hjoined : ∀ p ∈ joinedPunctuation, ∀ d ∈ p, isApart d = false := by
    have hall : joinedPunctuation.all (·.all (!isApart ·)) = true := by decide
    simpa using hall
  exact List.find?_congr fun p hp => h.isPrefixOf_eq (hjoined p hp)

theorem rawStringStart_eq_none (h : Alike a b) (ha : rawStringStart a = none) :
    rawStringStart b = none := by
  rw [rawStringStart_eq_none_iff] at ha ⊢
  intro r hr
  have hdrop := (takes_run (p := (· == '#')) (fun c => apart_eq_false (p := (· == '#')) (by decide)) h).2
  rw [hr] at hdrop
  obtain ⟨s, hs, -⟩ := hdrop.exists_cons (by decide)
  exact ha s hs

end Alike

end ModelPool.Source
