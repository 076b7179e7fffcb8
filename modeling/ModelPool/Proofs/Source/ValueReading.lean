import ModelPool.Proofs.Source.TypeReading
import ModelPool.Source.Expression

/-!
# Proofs/Source/ValueReading — texts and lists of texts are passed over

The values of generated constants are texts in quotes, and references to lists of them.  As expressions
they end before the semicolon behind them; a list is passed over as a group.

* `reads_group` — a bracket, whatever is flat, and the bracket that closes it.
* `reads_expression_text`, `reads_expression_list` — the two kinds of values.
-/

namespace ModelPool.Source

open Lexeme Reader

section Values

variable {N n k : Nat} {ls ls' r : List Lexeme} {l : Lexeme} {space : List Char}

/-! ## Groups -/

/-- **A lexeme that opens and closes nothing**, and may stand in a group. -/
structure IsFlat (l : Lexeme) : Prop where
  kind : l.kind = .word ∨ l.kind = .punctuation ∨ l.kind = .text
  opening : closingBracket? l.text = none
  closing : isClosingBracket l.text = false

/-- The texts that open or close a group. -/
def brackets : List String := ["(", "[", openBrace, ")", "]", closeBrace]

/-- A lexeme is flat whose text is none of them. -/
theorem isFlat_of_text_ne (hkind : l.kind = .word ∨ l.kind = .punctuation ∨ l.kind = .text)
    (hne : ∀ w ∈ brackets, l.text ≠ w) : IsFlat l := by
  refine ⟨hkind, ?_, ?_⟩
  · unfold closingBracket?
    split
    · next heq => exact absurd heq (hne _ (by simp [brackets]))
    · next heq => exact absurd heq (hne _ (by simp [brackets]))
    · next heq => exact absurd heq (hne _ (by simp [brackets, openBrace]))
    · rfl
  · simp [isClosingBracket, hne ")" (by simp [brackets]), hne "]" (by simp [brackets]),
      hne closeBrace (by simp [brackets])]

theorem fitsGroup_of_kind {t : Token} {quotes : Bool}
    (h : t.kind = .word ∨ t.kind = .punctuation ∨ t.kind = .text) : t.fitsGroup quotes = true := by
  rcases h with h | h | h <;> simp [Token.fitsGroup, h]

/-- Flat lexemes are passed over up to the bracket that closes the group. -/
theorem groupLength_flat {quotes : Bool} {inner : List Lexeme} {close : Lexeme} {ts : List Token}
    (hts : ts.map Token.bare = inner ++ close :: ls) (hinner : ∀ l ∈ inner, IsFlat l)
    (hkind : close.kind = .punctuation) (hclosing : isClosingBracket close.text = true)
    (hopening : closingBracket? close.text = none) :
    groupLength quotes [close.text] ts = some (inner.length + 1) := by
  induction inner generalizing ts with
  | nil =>
    obtain ⟨t, q, rfl, rfl, -⟩ := List.map_eq_cons_iff.1 hts
    have hfits : t.fitsGroup quotes = true := fitsGroup_of_kind (.inr (.inl hkind))
    have hnone : closingBracket? t.text = none := hopening
    have hclose : isClosingBracket t.text = true := hclosing
    simp [groupLength, hfits, hnone, hclose, Token.bare]
  | cons l inner ih =>
    obtain ⟨hl, hrest⟩ := List.forall_mem_cons.1 hinner
    obtain ⟨t, q, rfl, rfl, hq⟩ := List.map_eq_cons_iff.1 hts
    have hfits : t.fitsGroup quotes = true := fitsGroup_of_kind hl.kind
    have hnone : closingBracket? t.text = none := hl.opening
    have hclose : isClosingBracket t.text = false := hl.closing
    rw [groupLength, hfits, hnone, hclose, ih hq hrest]
    rfl

/-- **A group of flat lexemes** is passed over. -/
theorem reads_group {quotes : Bool} {inner : List Lexeme} {open' close : Lexeme}
    (hopen : closingBracket? open'.text = some close.text) (hinner : ∀ l ∈ inner, IsFlat l)
    (hkind : open'.kind = .punctuation ∧ close.kind = .punctuation)
    (hclosing : isClosingBracket close.text = true) (hopening : closingBracket? close.text = none) :
    Reads N (group quotes) (open' :: (inner ++ close :: ls)) () ls := by
  have hcomment : open'.isComment = false := by simp [Lexeme.isComment, hkind.1]
  have hvisible := visible_cons hcomment (inner ++ close :: ls)
  unfold group
  refine reads_bind reads_passComments ?_
  rw [hvisible]
  refine reads_bind (reads_text hvisible) (reads_get fun c _ hc => ?_)
  have hlength : groupLength quotes [] c.rest = some (inner.length + 2) := by
    obtain ⟨t, q, hcons, rfl, hq⟩ := List.map_eq_cons_iff.1 hc
    have hfits : t.fitsGroup quotes = true := fitsGroup_of_kind (.inr (.inl hkind.1))
    have hsome : closingBracket? t.text = some close.text := hopen
    rw [hcons, groupLength, hfits, hsome]
    simp [groupLength_flat hq hinner hkind.2 hclosing hopening]
  rw [hopen, hlength]
  have hskip : Reads N (skipTokens (inner.length + 2)) ((open' :: (inner ++ [close])) ++ ls) () ls :=
    reads_skipTokens (by simp)
  simpa using hskip

/-! ## Where an expression ends -/

/-- No operator begins with a semicolon. -/
theorem operatorAhead?_eq_none {t : Token} {ts : List Token} (ht : t.text = ";") :
    operatorAhead? (t :: ts) = none := by
  have hstart : ∀ k, adjoined (t :: ts) k = "" ∨ (adjoined (t :: ts) k).toList.head? = some ';' := by
    intro k
    unfold adjoined
    cases k with
    | zero => exact .inl rfl
    | succ k =>
      rw [List.take_succ_cons]
      dsimp only
      split
      · exact .inr (by simp [ht])
      · exact .inl rfl
  have hnone : ∀ s ∈ binaryOperators, s ≠ "" ∧ s.toList.head? ≠ some ';' := by decide
  have hall : ∀ k, adjoined (t :: ts) k ∉ binaryOperators := by
    intro k hmem
    rcases hstart k with h | h
    · exact (hnone _ hmem).1 h
    · exact (hnone _ hmem).2 h
  simp [operatorAhead?, List.findSome?, hall]

theorem reads_operations_stop {structs : Bool} (ls : List Lexeme) :
    Reads N (operations (n + 1) structs) (sign space ';' :: ls) () (sign space ';' :: ls) := by
  unfold operations
  refine reads_bind (reads_optional_of_ne rfl (by simp)) (reads_if_not (by decide) ?_)
  refine reads_bind reads_passComments (reads_get fun c _ hc => ?_)
  obtain ⟨t, q, hcons, ht, -⟩ := List.map_eq_cons_iff.1 hc
  have htext : t.text = ";" := congrArg Lexeme.text ht
  rw [hcons, operatorAhead?_eq_none htext]
  exact reads_pure

theorem reads_selections_stop (ls : List Lexeme) :
    Reads N (selections (n + 1)) (sign space ';' :: ls) () (sign space ';' :: ls) := by
  unfold selections
  exact reads_bind (reads_text rfl) reads_pure

/-! ## Operands -/

/-- Words that begin an operand of their own. -/
def operandWords : List String :=
  blockModifiers ++ [openBrace, "if", "match", "while", "loop", "for", "|"]

theorem reads_atBlockExpression (hl : visible ls = l :: r) (hkind : l.kind ≠ .lifetime)
    (htext : l.text ∉ operandWords) : Reads N atBlockExpression ls false ls := by
  simp only [operandWords, List.mem_append, not_or] at htext
  obtain ⟨hmodifier, hword⟩ := htext
  unfold atBlockExpression
  refine reads_bind (reads_textPair hl) (reads_bind (reads_kind? hl) (reads_if_not (by simpa) ?_))
  refine reads_if_not (by simpa using hmodifier) (reads_pure_of_eq ?_)
  simp only [List.contains_eq_mem, decide_eq_false_iff_not]
  exact fun hmem => hword (List.mem_append_left ["|"] hmem)

/-- No closure is ahead. -/
theorem behindModifiers_ne {c : Cursor} (hc : c.lexemes = ls) (hl : visible ls = l :: r)
    (htext : l.text ∉ operandWords) : (behindModifiers (n + 1) c == "|") = false := by
  obtain ⟨t, ht, rfl⟩ := bare_of_ahead? hc hl
  have hmodifier : t.text ∉ blockModifiers := fun hmem => htext (List.mem_append_left _ hmem)
  have hbar : t.text ≠ "|" := by
    intro hbar
    have hword : t.bare.text ∈ operandWords := (congrArg (· ∈ operandWords) hbar).mpr (by decide)
    exact htext hword
  simp [behindModifiers, ht, hmodifier, hbar]

/-- **A text in quotes** is an expression up to the semicolon behind it. -/
theorem reads_expression_text {s : String} (hs : s.toList.head? = some '"') (ls : List Lexeme) :
    Reads N (expression (n + 3) true) (⟨.text, space, s⟩ :: sign [] ';' :: ls) () (sign [] ';' :: ls) := by
  have hne : ∀ w : String, w.toList.head? ≠ some '"' → s ≠ w := by
    rintro w hw rfl
    exact hw hs
  have hnotIn : ∀ words : List String, (∀ w ∈ words, w.toList.head? ≠ some '"') → s ∉ words :=
    fun words hwords hmem => hne _ (hwords _ hmem) rfl
  have hwords : s ∉ operandWords := hnotIn _ (by decide)
  have hoperand : Reads N (operand (n + 2) true)
      (⟨.text, space, s⟩ :: sign [] ';' :: ls) () (sign [] ';' :: ls) := by
    unfold operand
    refine reads_bind (reads_text rfl) (reads_bind (reads_kind? rfl) (reads_if_not ?_ ?_))
    · simpa using hnotIn _ (by decide)
    refine reads_if_not (by simp [hne "-" (by decide), hne "*" (by decide), hne "!" (by decide)]) ?_
    refine reads_if_not (by simp [hne "&" (by decide)]) ?_
    refine reads_bind (reads_atBlockExpression rfl (by simp) hwords) (reads_if_not (by decide) ?_)
    refine reads_get fun c _ hc => reads_if_not ?_ ?_
    · rw [behindModifiers_ne hc rfl hwords]
      simp [hne "|" (by decide)]
    refine reads_if_not (by simp [hne "return" (by decide), hne "break" (by decide), hne "yield" (by decide)]) ?_
    refine reads_if_not (by simp [hne "continue" (by decide)]) ?_
    refine reads_if_not (by simp [hne "let" (by decide)]) ?_
    exact reads_if (by simp) (reads_bind (reads_skip rfl) (reads_selections_stop ls))
  unfold expression
  exact reads_bind hoperand (reads_operations_stop ls)

/-- **A reference to a list of flat lexemes** is an expression up to the semicolon behind it. -/
theorem reads_expression_list {inner : List Lexeme} (hinner : ∀ l ∈ inner, IsFlat l) (ls : List Lexeme) :
    Reads N (expression (n + 4) true)
      (sign space '&' :: sign [] '[' :: (inner ++ sign [] ']' :: sign [] ';' :: ls)) ()
      (sign [] ';' :: ls) := by
  have hgroup : Reads N (group false) (sign [] '[' :: (inner ++ sign [] ']' :: sign [] ';' :: ls)) ()
      (sign [] ';' :: ls) := reads_group (by decide) hinner ⟨rfl, rfl⟩ (by decide) (by decide)
  have hbrackets : Reads N (operand (n + 2) true)
      (sign [] '[' :: (inner ++ sign [] ']' :: sign [] ';' :: ls)) () (sign [] ';' :: ls) := by
    unfold operand
    refine reads_bind (reads_text rfl) (reads_bind (reads_kind? rfl) (reads_if_not (by decide) ?_))
    refine reads_if_not (by decide) (reads_if_not (by decide) ?_)
    refine reads_bind (reads_atBlockExpression rfl (by decide) (by decide)) (reads_if_not (by decide) ?_)
    refine reads_get fun c _ hc => reads_if_not ?_ ?_
    · rw [behindModifiers_ne hc rfl (by decide)]
      decide
    refine reads_if_not (by decide) (reads_if_not (by decide) (reads_if_not (by decide) ?_))
    refine reads_if_not (by decide) (reads_if (by decide) ?_)
    exact reads_bind hgroup (reads_selections_stop ls)
  have hreference : Reads N (operand (n + 3) true)
      (sign space '&' :: sign [] '[' :: (inner ++ sign [] ']' :: sign [] ';' :: ls)) ()
      (sign [] ';' :: ls) := by
    unfold operand
    refine reads_bind (reads_text rfl) (reads_bind (reads_kind? rfl) ?_)
    refine reads_if_not (by rw [text_sign]; decide) (reads_if_not (by rw [text_sign]; decide) ?_)
    refine reads_if (by rw [text_sign]; decide) (reads_bind (reads_skip rfl) ?_)
    refine reads_bind (reads_optional_of_ne rfl (by decide)) (reads_if_not (by decide) ?_)
    exact reads_bind (reads_optional_of_ne rfl (by decide)) hbrackets
  unfold expression
  exact reads_bind hreference (reads_operations_stop ls)

end Values

end ModelPool.Source
