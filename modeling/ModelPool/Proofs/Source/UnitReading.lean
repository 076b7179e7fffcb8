import ModelPool.Proofs.Source.StatementReading

/-!
# Proofs/Source/UnitReading — sources are read back statement by statement

A source that is put together from legible lexemes has these for its tokens, so its statements are told
one after the other: a comment by itself, any other statement by what its reader finds.

* `Tells` — what is known of the statements from a place on.
* `exists_ofCharacters` — from the lexemes of a text to what the text declares.
-/

namespace ModelPool.Source

open Lexeme Reader

/-- **The statements from these lexemes on** have a property, and none of them is malformed; the source
has `N` tokens in all. -/
def Tells (n N : Nat) (ls : List Lexeme) (R : List Statement → Prop) : Prop :=
  ∀ c : Cursor, c.total = N → c.lexemes = ls → ∃ ss, c.statements n = (ss, c.errors) ∧ R ss

section Tells

variable {n N : Nat} {ls ls' : List Lexeme} {l : Lexeme} {P : Statement → Prop}
  {R R' : List Statement → Prop}

theorem Tells.imp (h : Tells n N ls R) (himp : ∀ ss, R ss → R' ss) : Tells n N ls R' := by
  intro c hN hc
  obtain ⟨ss, hss, hR⟩ := h c hN hc
  exact ⟨ss, hss, himp ss hR⟩

theorem tells_nil (h : R []) : Tells n N [] R := by
  intro c _ hc
  have hrest : c.rest = [] := List.map_eq_nil_iff.1 hc
  refine ⟨[], ?_, h⟩
  rw [Cursor.statements]
  split
  · rfl
  · next t r heq => exact absurd (hrest.symm.trans heq) (by simp)

/-- A step of the reading of a source. -/
theorem statements_of_step {c : Cursor} {t : Token} {r : List Token} {first : Statement} {later : Cursor}
    {ss : List Statement} (hc : c.rest = t :: r) (hstep : c.statement n t r = (first, later))
    (hshorter : later.rest.length < c.rest.length) (hrest : later.statements n = (ss, c.errors)) :
    c.statements n = (first :: ss, c.errors) := by
  rw [Cursor.statements]
  split
  · next heq => exact absurd (hc.symm.trans heq) (by simp)
  · next t' r' heq =>
    obtain ⟨rfl, rfl⟩ := List.cons.inj (hc.symm.trans heq)
    simp only [hstep, hrest]
    rw [if_pos hshorter]

/-- A comment is a statement of its own. -/
theorem tells_comment (hl : l.isComment = true) (h : Tells n N ls R') :
    Tells n N (l :: ls) fun ss => ∃ r, ss = .comment l.text :: r ∧ R' r := by
  intro c hN hc
  obtain ⟨t, r, hrest, rfl, hr⟩ := List.map_eq_cons_iff.1 hc
  have hstep : c.statement n t r =
      (.comment t.text, { c with rest := r, taken := c.taken + 1, stop := t.stop }) := if_pos hl
  have htotal : c.taken + 1 + r.length = N := by
    rw [← hN, Cursor.total, hrest, List.length_cons]
    omega
  obtain ⟨ss, hss, hR⟩ := h { c with rest := r, taken := c.taken + 1, stop := t.stop } htotal hr
  exact ⟨_, statements_of_step hrest hstep (by simp [hrest]) hss, ss, rfl, hR⟩

/-- **A statement is told** by what its reader finds. -/
theorem tells_statement {done : List Lexeme} (hl : l.isComment = false)
    (hfound : Finds N (statement n true) (l :: (done ++ ls)) P ls) (h : Tells n N ls R') :
    Tells n N (l :: (done ++ ls)) fun ss => ∃ s r, ss = s :: r ∧ P s ∧ R' r := by
  intro c hN hc
  obtain ⟨t, r, hrest, rfl, hr⟩ := List.map_eq_cons_iff.1 hc
  obtain ⟨s, c', hrun, hs, hN', hc', herrors⟩ := hfound c hN hc
  have hcomment : ¬ t.isComment = true := by
    rw [Bool.not_eq_true]
    exact hl
  have hstep : c.statement n t r = (s, c') := by
    have hreader : Reader.statement n true c = some (s, c') := hrun
    rw [Cursor.statement, if_neg hcomment, hreader]
  obtain ⟨ss, hss, hR⟩ := h c' hN' hc'
  rw [herrors] at hss
  refine ⟨_, statements_of_step hrest hstep ?_ hss, s, ss, rfl, hs, hR⟩
  rw [← Cursor.length_lexemes, ← Cursor.length_lexemes, hc', hc, List.length_cons, List.length_append]
  omega

/-- Comments are told one by one. -/
theorem tells_comments {comments : List Lexeme} (hcomments : ∀ l ∈ comments, l.isComment = true)
    (h : Tells n N ls R') :
    Tells n N (comments ++ ls) fun ss =>
      ∃ r, ss = comments.map (fun l => .comment l.text) ++ r ∧ R' r := by
  induction comments with
  | nil => exact h.imp fun ss hR => ⟨ss, rfl, hR⟩
  | cons l comments ih =>
    obtain ⟨hl, hrest⟩ := List.forall_mem_cons.1 hcomments
    refine (tells_comment hl (ih hrest)).imp ?_
    rintro _ ⟨_, rfl, r, rfl, hR⟩
    exact ⟨r, rfl, hR⟩

end Tells

/-! ## Texts -/

/-- The tokens of a print are the lexemes printed, if it begins with neither a shebang nor a byte order
mark. -/
theorem map_bare_tokens {ls : List Lexeme} {rest : List Char} {first : Char} (hlegible : Legible ls rest)
    (hspace : rest.all isSpace = true) (hfirst : (print ls ++ rest).head? = some first)
    (hplain : first ≠ '#' ∧ first ≠ byteOrderMark) : (tokens (print ls ++ rest)).map Token.bare = ls := by
  obtain ⟨ts, q, htokens, hts⟩ := exists_tokensFrom hlegible .origin
  rw [tokensFrom_of_spaces q hspace, List.append_nil] at htokens
  obtain ⟨r, hr⟩ := List.head?_eq_some_iff.1 hfirst
  have hshebang : shebangLength (first :: r) = none := by
    unfold shebangLength
    split
    · next heq => exact absurd (List.cons.inj heq).1 hplain.1
    · rfl
  rw [hr] at htokens ⊢
  rw [tokens, if_neg hplain.2, hshebang]
  exact (congrArg (List.map Token.bare) htokens).trans hts

/-- **A text is read as the lexemes it was put together from.** -/
theorem exists_ofCharacters {ls : List Lexeme} {rest : List Char} {first : Char} {R : List Statement → Prop}
    (hlegible : Legible ls rest) (hspace : rest.all isSpace = true)
    (hfirst : (print ls ++ rest).head? = some first) (hplain : first ≠ '#' ∧ first ≠ byteOrderMark)
    (h : Tells (16 * (ls.length + 1)) ls.length ls R) :
    ∃ ss, SourceUnit.ofCharacters (print ls ++ rest) = SourceUnit.ofStatements ss [] ∧ R ss := by
  obtain ⟨ts, hall⟩ : ∃ ts, tokens (print ls ++ rest) = ts := ⟨_, rfl⟩
  have hts : ts.map Token.bare = ls := hall ▸ map_bare_tokens hlegible hspace hfirst hplain
  have hlength : ts.length = ls.length := by rw [← hts, List.length_map]
  obtain ⟨ss, hss, hR⟩ := h (Cursor.start ts) (by simp [Cursor.total, Cursor.start, hlength]) hts
  refine ⟨ss, ?_, hR⟩
  have hstatements : statements (print ls ++ rest) = (ss, []) := by
    rw [statements, hall, depthFor, hlength]
    exact hss
  rw [SourceUnit.ofCharacters, hstatements]

end ModelPool.Source
