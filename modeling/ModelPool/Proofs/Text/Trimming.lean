import ModelPool.Proofs.Source.Words
import Mathlib.Data.List.TakeWhile

/-!
# Proofs/Text/Trimming — what trimming leaves of a text

A text loses the blanks at its ends and no other character, so the blanks around a text are of no account, and
two trimmed texts that differ in a character that is no blank are not the same.

* `trim_between` — a text between blanks.
* `squeeze_trim` — the characters that are no blanks stay.
-/

namespace ModelPool.Text

variable {cs bs as : List Char}

/-! ## Blanks around a text -/

theorem trimStart_append (hbs : ∀ c ∈ bs, isBlank c = true) (cs : List Char) :
    trimStart (bs ++ cs) = trimStart cs := List.dropWhile_append_of_pos hbs

/-- **The blanks around a text** are of no account. -/
theorem trim_between (hbs : ∀ c ∈ bs, isBlank c = true) (cs : List Char) (has : ∀ c ∈ as, isBlank c = true) :
    trim (bs ++ cs ++ as) = trim cs := by
  rw [trim, List.append_assoc, trimStart_append hbs, trimStart, List.dropWhile_append]
  split
  · next hnil =>
    rw [List.dropWhile_eq_nil_iff.2 has, trim, trimStart, List.isEmpty_iff.1 hnil]
  · rw [trimEnd_append_blanks _ has]
    rfl

theorem trim_append_blanks (cs : List Char) (has : ∀ c ∈ as, isBlank c = true) : trim (cs ++ as) = trim cs := by
  simpa using @trim_between [] as (List.forall_mem_nil _) cs has

/-- A text keeps its front if that begins with no blank. -/
theorem trim_cons {c : Char} (hc : isBlank c = false) (r : List Char) : trim (c :: r) = trimEnd (c :: r) := by
  rw [trim, trimStart, List.dropWhile_cons_of_neg (by simp [hc])]

/-- The front of a text that holds more than blanks behind it is not trimmed. -/
theorem trimEnd_front (front : List Char) {c : Char} (hc : isBlank c = false) (r : List Char) :
    trimEnd (front ++ c :: r) = front ++ trimEnd (c :: r) := by
  have hne : trimEnd (c :: r) ≠ [] := by
    rw [trimEnd]
    split <;> simp [hc]
  induction front with
  | nil => rfl
  | cons d front ih =>
    rw [List.cons_append, trimEnd, ih, List.cons_append]
    cases hrest : front ++ trimEnd (c :: r) with
    | nil => exact absurd (List.append_eq_nil_iff.1 hrest).2 hne
    | cons e t => rfl

/-- A text is what is left of it, and blanks behind that. -/
theorem exists_blanks (cs : List Char) : ∃ bs, cs = trimEnd cs ++ bs ∧ ∀ c ∈ bs, isBlank c = true := by
  induction cs with
  | nil => exact ⟨[], rfl, List.forall_mem_nil _⟩
  | cons c r ih =>
    obtain ⟨bs, hr, hbs⟩ := ih
    rw [trimEnd]
    split
    · next hnil =>
      rw [hnil, List.nil_append] at hr
      split
      · next hc => exact ⟨c :: r, rfl, List.forall_mem_cons.2 ⟨hc, hr ▸ hbs⟩⟩
      · exact ⟨bs, by rw [hr]; rfl, hbs⟩
    · next d t heq =>
      rw [heq] at hr
      exact ⟨bs, congrArg (c :: ·) hr, hbs⟩

theorem trim_trimEnd (cs : List Char) : trim (trimEnd cs) = trim cs := by
  obtain ⟨bs, hcs, hbs⟩ := exists_blanks cs
  have htrim := trim_append_blanks (trimEnd cs) hbs
  rwa [← hcs, eq_comm] at htrim

theorem trimEnd_trimEnd (cs : List Char) : trimEnd (trimEnd cs) = trimEnd cs := by
  obtain ⟨bs, hcs, hbs⟩ := exists_blanks cs
  have htrim := trimEnd_append_blanks (trimEnd cs) hbs
  rwa [← hcs, eq_comm] at htrim

/-- What ends a text that is trimmed at its end is trimmed there itself. -/
theorem trimEnd_of_append {front cs : List Char} (h : trimEnd (front ++ cs) = front ++ cs) :
    trimEnd cs = cs := by
  induction front with
  | nil => exact h
  | cons c r ih =>
    refine ih ?_
    rw [List.cons_append, trimEnd] at h
    split at h
    · next hnil =>
      split at h
      · exact absurd h (by simp)
      · rw [← (List.cons.inj h).2]
        rfl
    · next d t heq => rw [heq, (List.cons.inj h).2]

/-- Such a text may stand behind any other. -/
theorem trimEnd_append {cs : List Char} (h : trimEnd cs = cs) (hne : cs ≠ []) (front : List Char) :
    trimEnd (front ++ cs) = front ++ cs := by
  induction front with
  | nil => exact h
  | cons c r ih =>
    rw [List.cons_append, trimEnd, ih]
    cases hr : r ++ cs with
    | nil => simp_all
    | cons d t => rfl

/-- The first character of a text that is no blank stays. -/
theorem trimEnd_cons {c : Char} (hc : isBlank c = false) (r : List Char) :
    trimEnd (c :: r) = c :: trimEnd r := by
  rw [trimEnd]
  cases hr : trimEnd r with
  | nil => simp [hc]
  | cons d t => rfl

/-- Trimming the end does not change what a text begins with, unless nothing is left. -/
theorem head?_trimEnd (cs : List Char) : ∀ c ∈ (trimEnd cs).head?, cs.head? = some c := by
  intro c hc
  cases cs with
  | nil => exact absurd hc (by simp)
  | cons d r =>
    rw [trimEnd] at hc
    split at hc
    · split at hc
      · exact absurd hc (by simp)
      · exact hc
    · exact hc

theorem getLast?_trimEnd (cs : List Char) : ∀ c ∈ (trimEnd cs).getLast?, isBlank c = false := by
  induction cs with
  | nil => simp
  | cons d r ih =>
    rw [trimEnd]
    split
    · split
      · simp
      · next hd => simpa using hd
    · next c t heq =>
      rw [heq] at ih
      simpa using ih

/-- The ends of a trimmed text are not blank. -/
theorem ends_trim (cs : List Char) : (∀ c ∈ (trim cs).head?, isBlank c = false) ∧
    ∀ c ∈ (trim cs).getLast?, isBlank c = false := by
  refine ⟨fun c hc => ?_, getLast?_trimEnd _⟩
  have hfirst : (cs.dropWhile isBlank).head? = some c := head?_trimEnd _ c hc
  have hdrop := List.head?_dropWhile_not isBlank cs
  rw [hfirst] at hdrop
  simpa using hdrop

/-! ## Characters that are no blanks -/

theorem squeeze_append (cs bs : List Char) : squeeze (cs ++ bs) = squeeze cs ++ squeeze bs :=
  List.filter_append ..

theorem squeeze_cons {c : Char} (hc : isBlank c = false) (r : List Char) : squeeze (c :: r) = c :: squeeze r :=
  List.filter_cons_of_pos (by simp [hc])

theorem squeeze_eq_nil_iff : squeeze cs = [] ↔ ∀ c ∈ cs, isBlank c = true := by
  simp [squeeze]

theorem squeeze_trimEnd (cs : List Char) : squeeze (trimEnd cs) = squeeze cs := by
  induction cs with
  | nil => rfl
  | cons c r ih =>
    rw [trimEnd]
    split
    · next hnil =>
      rw [hnil] at ih
      split
      · next hc => rw [squeeze, squeeze, List.filter_cons_of_neg (by simp [hc])]; exact ih
      · next hc => rw [squeeze_cons (by simpa using hc), squeeze_cons (by simpa using hc), ← ih]
    · next d t heq =>
      rw [heq] at ih
      have hfirst : ∀ s, squeeze (c :: s) = squeeze [c] ++ squeeze s := squeeze_append [c]
      rw [hfirst (d :: t), hfirst r, ih]

/-- **Every character that is no blank stays.** -/
theorem squeeze_trim (cs : List Char) : squeeze (trim cs) = squeeze cs := by
  have hsplit := congrArg squeeze (List.takeWhile_append_dropWhile (p := isBlank) (l := cs))
  have hblanks : squeeze (cs.takeWhile isBlank) = [] :=
    squeeze_eq_nil_iff.2 fun c hc => List.mem_takeWhile_imp hc
  rw [squeeze_append, hblanks, List.nil_append] at hsplit
  exact (squeeze_trimEnd _).trans hsplit

/-- What a text begins with, where blanks belong to the class, is told by its other characters. -/
theorem squeeze_takeWhile {p : Char → Bool} (hp : ∀ c, isBlank c = true → p c = true) (cs : List Char) :
    squeeze (cs.takeWhile p) = (squeeze cs).takeWhile p := by
  induction cs with
  | nil => rfl
  | cons c r ih =>
    cases hpc : p c with
    | true =>
      rw [List.takeWhile_cons_of_pos hpc]
      cases hc : isBlank c with
      | true => simpa [squeeze, hc] using ih
      | false => rw [squeeze_cons hc, squeeze_cons hc, List.takeWhile_cons_of_pos hpc, ih]
    | false =>
      have hc : isBlank c = false := Bool.eq_false_iff.2 fun hblank => by simp [hp c hblank] at hpc
      rw [List.takeWhile_cons_of_neg (by simp [hpc]), squeeze_cons hc, List.takeWhile_cons_of_neg (by simp [hpc])]
      rfl

end ModelPool.Text
