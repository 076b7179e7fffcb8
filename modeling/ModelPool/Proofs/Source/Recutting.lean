import ModelPool.Proofs.Source.Cutting
import ModelPool.Source.Group

/-!
# Proofs/Source/Recutting — a run of tokens is cut alike before a bracket

The tokens of a source are a run of lexemes, each of which stands well before the rest of the source.  Such
a run may be taken out and put before a closing bracket: if what stood behind it was a blank, a comment or a
bracket too, the lexer cuts it where it was cut before.

* `exists_cut` — the run that a source begins with.
* `Legible.before_bracket` — the run before a bracket.
-/

namespace ModelPool.Source

open Text Lexeme

/-! ## The tokens of a source -/

section Tokens

variable {p : Position} {cs : List Char} {t : Token} {ts done : List Token}

/-- The first token, and the text behind it. -/
theorem exists_first (h : tokensFrom p cs = t :: ts) : ∃ q c r n, lexeme c r = (t.kind, n) ∧
    cs = t.space ++ c :: r ∧ t.space.all isSpace = true ∧ isSpace c = false ∧
    t.text.toList = c :: r.take (n - 1) ∧ ts = tokensFrom q (r.drop (n - 1)) := by
  cases hdrop : cs.dropWhile isSpace with
  | nil =>
    have hnil := tokensFrom_of_spaces p (List.all_eq_true.2 (List.dropWhile_eq_nil_iff.1 hdrop))
    exact absurd (hnil.symm.trans h) (by simp)
  | cons c r =>
    have hc := List.head?_dropWhile_not isSpace cs
    rw [hdrop] at hc
    obtain ⟨u, q, htokens, hbare⟩ := exists_tokensFrom_cons p hdrop
    obtain ⟨rfl, rfl⟩ := List.cons.inj (h.symm.trans htokens)
    obtain ⟨hkind, hspace, htext⟩ := Lexeme.mk.inj hbare
    refine ⟨q, c, r, (lexeme c r).2, Prod.ext hkind.symm rfl, ?_, ?_, by simpa using hc, ?_, rfl⟩
    · rw [hspace, ← hdrop, List.takeWhile_append_dropWhile]
    · rw [hspace]
      exact List.all_takeWhile
    · rw [htext, String.toList_ofList]

/-- What is left of the tokens of a text are the tokens of a text. -/
theorem exists_tokensFrom_drop (p : Position) (cs : List Char) (k : Nat) :
    ∃ q cs', (tokensFrom p cs).drop k = tokensFrom q cs' := by
  induction k generalizing p cs with
  | zero => exact ⟨p, cs, rfl⟩
  | succ k ih =>
    cases h : tokensFrom p cs with
    | nil => exact ⟨p, [], (tokensFrom_of_spaces p List.all_nil).symm⟩
    | cons t ts =>
      obtain ⟨q, c, r, n, -, -, -, -, -, rfl⟩ := exists_first h
      exact ih q _

/-- A token that something follows stands well before it. -/
theorem exists_cut_cons (h : tokensFrom p cs = t :: ts) (hts : ts ≠ []) (ht : IsSound t.kind) :
    ∃ q cs', cs = t.space ++ t.text.toList ++ cs' ∧ ts = tokensFrom q cs' ∧ Before t.bare cs' := by
  obtain ⟨q, c, r, n, hlexeme, hcs, hspace, hc, htext, rfl⟩ := exists_first h
  have hn : 0 < n := lexeme_pos hlexeme ht
  have hlt : n - 1 < r.length := by
    by_contra hle
    rw [List.drop_of_length_le (Nat.le_of_not_lt hle)] at hts
    exact hts (tokensFrom_of_spaces q rfl)
  refine ⟨q, r.drop (n - 1), ?_, rfl, hspace, c, r.take (n - 1), htext, hc, ?_⟩
  · rw [htext, List.append_assoc, List.cons_append, List.take_append_drop]
    exact hcs
  · rw [List.take_append_drop, hlexeme, List.length_take_of_le (Nat.le_of_lt hlt),
      Nat.sub_add_cancel hn]
    rfl

/-- **The run that a source begins with** stands well before the rest of it. -/
theorem exists_cut (h : tokensFrom p cs = done ++ ts) (hts : ts ≠ [])
    (hdone : ∀ t ∈ done, IsSound t.kind) : ∃ q cs', cs = print (done.map Token.bare) ++ cs' ∧
      ts = tokensFrom q cs' ∧ Legible (done.map Token.bare) cs' := by
  induction done generalizing p cs with
  | nil => exact ⟨p, cs, rfl, h.symm, trivial⟩
  | cons t done ih =>
    obtain ⟨ht, hrest⟩ := List.forall_mem_cons.1 hdone
    obtain ⟨q, cs', rfl, hcs', hbefore⟩ := exists_cut_cons h (by simp [hts]) ht
    obtain ⟨q', cs'', rfl, hcs'', hlegible⟩ := ih hcs'.symm hrest
    exact ⟨q', cs'', by simp [Token.bare], hcs'', hbefore, hlegible⟩

/-- A source that goes on with a comment or a bracket goes on with a character that parts. -/
theorem exists_apart (h : tokensFrom p cs = t :: ts) (ht : t.isComment = true ∨ t.text = "]") :
    ∃ c r, cs = c :: r ∧ isApart c = true := by
  obtain ⟨q, c, r, n, hlexeme, hcs, hspace, -, htext, -⟩ := exists_first h
  cases hblank : t.space with
  | cons d s => exact ⟨d, s ++ c :: r, by rw [hcs, hblank]; rfl, by simp_all [isApart]⟩
  | nil =>
    refine ⟨c, r, by rw [hcs, hblank]; rfl, ?_⟩
    rcases ht with ht | ht
    · have hkind : t.kind = .comment := beq_iff_eq.1 ht
      rw [hkind] at hlexeme
      rw [eq_slash_of_comment hlexeme]
      decide
    · rw [ht] at htext
      obtain ⟨rfl, -⟩ := List.cons.inj htext
      decide

/-- Every token holds the lexeme that stands at its first character. -/
theorem exists_lexeme_of_mem (ht : t ∈ tokensFrom p cs) :
    ∃ c r n, lexeme c r = (t.kind, n) ∧ t.text.toList = c :: r.take (n - 1) := by
  generalize hts : tokensFrom p cs = ts at ht
  induction ts generalizing p cs with
  | nil => exact absurd ht List.not_mem_nil
  | cons u ts ih =>
    obtain ⟨q, c, r, n, hlexeme, -, -, -, htext, hrest⟩ := exists_first hts
    rcases List.mem_cons.1 ht with rfl | ht
    · exact ⟨c, r, n, hlexeme, htext⟩
    · exact ih hrest.symm ht

/-- A lifetime is spelled like one. -/
theorem isLifetime_of_mem (ht : t ∈ tokensFrom p cs) (hkind : t.kind = .lifetime) :
    ∃ d q, t.text.toList = '\'' :: d :: q ∧ isWordStart d = true ∧ q.all isIdentifierTail = true := by
  obtain ⟨c, r, n, hlexeme, htext⟩ := exists_lexeme_of_mem ht
  have hview := lexemeView c r
  rw [hlexeme, hkind] at hview
  cases hview with
  | literal hliteral => simp at hliteral
  | @lifetime d s hc hr hd =>
    refine ⟨d, s.take (runLength isIdentifierTail s), ?_, hd, ?_⟩
    · rw [htext, hc, hr]
      rfl
    · rw [take_runLength]
      exact List.all_takeWhile
  | none hnone => simp at hnone

/-- A comment is no bracket. -/
theorem isClosingBracket_of_comment (ht : t ∈ tokensFrom p cs) (hcomment : t.isComment = true) :
    isClosingBracket t.text = false := by
  obtain ⟨c, r, n, hlexeme, htext⟩ := exists_lexeme_of_mem ht
  rw [beq_iff_eq.1 hcomment] at hlexeme
  obtain rfl := eq_slash_of_comment hlexeme
  rw [Bool.eq_false_iff]
  intro hclosing
  simp only [isClosingBracket, closeBrace, Bool.or_eq_true, beq_iff_eq] at hclosing
  rcases hclosing with (h | h) | h <;> simp [h] at htext

end Tokens

/-! ## The run before a bracket -/

section Bracket

variable {a q : List Char} {ls : List Lexeme} {c : Char}

theorem kind_of_quote (h : characterLength q = none) : (lexeme '\'' q).1 ≠ .character := by
  cases q with
  | nil => simp [lexeme, characterLength]
  | cons d q =>
    simp only [lexeme, h]
    split <;> simp

theorem kind_of_literal {n : Nat} (h : characterLength q = some n) :
    (lexeme '\'' q).1 = .character ∧ (lexeme 'b' ('\'' :: q)).1 = .character := by
  have hword : lexeme 'b' ('\'' :: q) = wordLexeme 'b' ('\'' :: q) := lexeme_of_isWordStart (by decide)
  rw [hword]
  simp [lexeme, wordLexeme, h]

theorem print_ne_nil {ls : List Lexeme} (h : Legible ls a) (hls : ls ≠ []) : print ls ≠ [] := by
  obtain ⟨l, r, rfl⟩ := List.exists_cons_of_ne_nil hls
  obtain ⟨c, w, htext, -⟩ := h.1.cut
  simp [htext]

/-- A run that begins with a quote begins with the lexeme that stands there. -/
theorem kind_of_print {l : Lexeme} {r : List Lexeme} (h : Legible (l :: r) a)
    (hq : print (l :: r) ++ a = '\'' :: q) : (lexeme '\'' q).1 = l.kind := by
  obtain ⟨d, w, htext, -, hcut⟩ := h.1.cut
  have hspace : l.space = [] := by
    cases hblank : l.space with
    | nil => rfl
    | cons e s =>
      have hall := h.1.space
      obtain rfl : e = '\'' := by simp_all
      simp [hblank, isSpace] at hall
  obtain ⟨rfl, rfl⟩ : d = '\'' ∧ w ++ (print r ++ a) = q := by simpa [hspace, htext] using hq
  rw [hcut]

/-- Where a `b` is a word, a quote behind it begins a lifetime, and no literal before a bracket. -/
theorem characterLength_behind_word {w b : List Char} (h : Legible ls (c :: a))
    (hlegible : Legible ls (']' :: b)) (hc : isApart c = true)
    (hcut : lexeme 'b' (w ++ (print ls ++ c :: a)) = (.word, w.length + 1))
    (hq : w ++ (print ls ++ ']' :: b) = '\'' :: q) : characterLength q = none := by
  have hword : isWord ('b' :: w) = true := by
    have hspelled := spelled_lexeme 'b' (w ++ (print ls ++ c :: a))
    rw [hcut] at hspelled
    simpa using hspelled rfl
  obtain rfl : w = [] := by
    cases w with
    | nil => rfl
    | cons e w =>
      obtain rfl := (List.cons.inj hq).1
      exact absurd (by simp) (not_mem_of_isWord hword (c := '\'') (by decide) (by decide))
  cases ls with
  | nil => simp at hq
  | cons l r =>
    obtain ⟨q', hq', -⟩ := (hq ▸ Alike.append (print (l :: r)) (.stop hc a b)).exists_cons (by decide)
    have hkind : l.kind ≠ .character := by
      rw [← kind_of_print h hq']
      refine kind_of_quote (Option.eq_none_iff_forall_ne_some.2 fun n hn => ?_)
      rw [List.nil_append, hq'] at hcut
      exact absurd ((congrArg Prod.fst hcut).symm.trans (kind_of_literal hn).2) (by decide)
    rw [← kind_of_print hlegible hq] at hkind
    exact Option.eq_none_iff_forall_ne_some.2 fun n hn => hkind (kind_of_literal hn).1

/-- **A run that stands well before a blank, a comment or a bracket stands well before a bracket.** -/
theorem Legible.before_bracket (h : Legible ls (c :: a)) (hc : isApart c = true)
    (hls : ∀ l ∈ ls, IsSound l.kind) (hlast : ∀ l ∈ ls.getLast?, l.isComment = false) (b : List Char) :
    Legible ls (']' :: b) := by
  induction ls with
  | nil => trivial
  | cons l ls ih =>
    obtain ⟨hl, hrest⟩ := List.forall_mem_cons.1 hls
    have hlegible : Legible ls (']' :: b) := ih h.2 hrest fun d hd => hlast d (by
      simp only [List.getLast?_cons, Option.mem_def] at hd ⊢
      simp [hd])
    refine ⟨⟨h.1.space, ?_⟩, hlegible⟩
    obtain ⟨d, w, htext, hd, hcut⟩ := h.1.cut
    refine ⟨d, w, htext, hd, lexeme_alike hcut hl (.append _ (.stop hc a b)) (fun hcomment => ?_)
      fun hword hb q hq => ?_⟩
    · have hne : ls ≠ [] := by
        rintro rfl
        exact absurd (hlast l rfl) (by simp [Lexeme.isComment, hcomment])
      obtain ⟨e, s, hprint⟩ := List.exists_cons_of_ne_nil (print_ne_nil h.2 hne)
      simp [hprint]
    · subst hb
      rw [hword] at hcut
      exact characterLength_behind_word h.2 hlegible hc hcut hq

end Bracket

end ModelPool.Source
