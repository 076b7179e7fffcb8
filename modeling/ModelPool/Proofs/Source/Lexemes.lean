import ModelPool.Proofs.Source.Numbers

/-!
# Proofs/Source/Lexemes — texts that are cut where they were put together

A lexeme is a token without its place.  A run of lexemes is printed one by one, and the lexer cuts the
print where it was put together, as long as each lexeme stands well before what follows it: a word does
not run on into the next one, and a sign does not join it.

* `exists_tokensFrom` — the tokens of a print are the lexemes printed.
* `Before` — a lexeme stands well before a text, with one lemma for each kind.
-/

namespace ModelPool.Source

open ModelPool.Text

/-! ## Lexemes -/

/-- A token without its place. -/
structure Lexeme where
  kind : TokenKind
  space : List Char
  text : String
deriving DecidableEq

/-- The lexeme that a token is. -/
def Token.bare (t : Token) : Lexeme := ⟨t.kind, t.space, t.text⟩

namespace Lexeme

/-- The lexeme is a comment. -/
def isComment (l : Lexeme) : Bool := l.kind == .comment

/-- The text of a run of lexemes. -/
def print : List Lexeme → List Char
  | [] => []
  | l :: r => l.space ++ l.text.toList ++ print r

@[simp] theorem print_nil : print [] = [] := rfl

@[simp] theorem print_cons (l : Lexeme) (r : List Lexeme) :
    print (l :: r) = l.space ++ l.text.toList ++ print r := rfl

@[simp] theorem print_append (r s : List Lexeme) : print (r ++ s) = print r ++ print s := by
  induction r with
  | nil => rfl
  | cons l r ih => simp [ih]

/-- The text of a run without the white space before it. -/
def spanned : List Lexeme → List Char
  | [] => []
  | l :: r => l.text.toList ++ print r

end Lexeme

open Lexeme

/-- A run of tokens prints as its lexemes do. -/
theorem Token.print_eq (ts : List Token) : Token.print ts = Lexeme.print (ts.map Token.bare) := by
  induction ts with
  | nil => rfl
  | cons t r ih => simp [Token.print_cons, ih, Token.bare]

theorem Token.spanned_eq (ts : List Token) :
    Token.spanned ts = Lexeme.spanned (ts.map Token.bare) := by
  cases ts with
  | nil => rfl
  | cons t r => simp [Token.spanned, Lexeme.spanned, Token.print_eq, Token.bare]

/-! ## Cutting a print -/

/-- **A lexeme stands well before a text**: the lexer cuts it off there. -/
structure Before (l : Lexeme) (rest : List Char) : Prop where
  space : l.space.all isSpace = true
  cut : ∃ c r, l.text.toList = c :: r ∧ isSpace c = false ∧
    lexeme c (r ++ rest) = (l.kind, r.length + 1)

/-- **Each lexeme of a run stands well** before what follows it. -/
def Legible : List Lexeme → List Char → Prop
  | [], _ => True
  | l :: r, rest => Before l (print r ++ rest) ∧ Legible r rest

@[simp] theorem legible_nil (rest : List Char) : Legible [] rest := trivial

theorem legible_cons {l : Lexeme} {r : List Lexeme} {rest : List Char} :
    Legible (l :: r) rest ↔ Before l (print r ++ rest) ∧ Legible r rest := Iff.rfl

theorem legible_append {r s : List Lexeme} {rest : List Char} :
    Legible (r ++ s) rest ↔ Legible r (print s ++ rest) ∧ Legible s rest := by
  induction r with
  | nil => simp
  | cons l r ih => simp [legible_cons, ih, and_assoc]

/-- The lexer cuts off the lexeme ahead and goes on behind it. -/
theorem exists_tokensFrom_cons (p : Position) {cs r : List Char} {c : Char}
    (h : cs.dropWhile isSpace = c :: r) : ∃ t q,
      tokensFrom p cs = t :: tokensFrom q (r.drop ((lexeme c r).2 - 1)) ∧
      t.bare = ⟨(lexeme c r).1, cs.takeWhile isSpace,
        String.ofList (c :: r.take ((lexeme c r).2 - 1))⟩ := by
  rw [tokensFrom]
  split
  · next hnil => simp [h] at hnil
  · next d s hcons =>
    obtain ⟨rfl, rfl⟩ := List.cons.inj (h.symm.trans hcons)
    exact ⟨_, _, rfl, rfl⟩

theorem tokensFrom_of_spaces (p : Position) {cs : List Char} (h : cs.all isSpace = true) :
    tokensFrom p cs = [] := by
  rw [tokensFrom]
  split
  · rfl
  · next c r hcons =>
    have hnil : cs.dropWhile isSpace = [] := List.dropWhile_eq_nil_iff.2 (List.all_eq_true.1 h)
    simp [hnil] at hcons

/-- What stands well before a text is cut off. -/
theorem Before.exists_tokensFrom {l : Lexeme} {rest : List Char} (h : Before l rest) (p : Position) :
    ∃ t q, tokensFrom p (l.space ++ l.text.toList ++ rest) = t :: tokensFrom q rest ∧
      t.bare = l := by
  obtain ⟨c, r, htext, hc, hlexeme⟩ := h.cut
  have hspace : ∀ d ∈ l.space, isSpace d = true := List.all_eq_true.1 h.space
  have hdrop : (l.space ++ l.text.toList ++ rest).dropWhile isSpace = c :: (r ++ rest) := by
    rw [htext, List.append_assoc, List.dropWhile_append_of_pos hspace]
    simp [hc]
  have htake : (l.space ++ l.text.toList ++ rest).takeWhile isSpace = l.space := by
    rw [htext, List.append_assoc, List.takeWhile_append_of_pos hspace]
    simp [hc]
  obtain ⟨t, q, htokens, hbare⟩ := exists_tokensFrom_cons p hdrop
  rw [hlexeme] at htokens hbare
  refine ⟨t, q, by simpa using htokens, ?_⟩
  have hofList : String.ofList (c :: r) = l.text := by rw [← htext, String.ofList_toList]
  simp only [hbare, htake, Nat.add_sub_cancel, List.take_left', hofList]

/-- **The tokens of a print are the lexemes printed.** -/
theorem exists_tokensFrom {ls : List Lexeme} {rest : List Char} (h : Legible ls rest) (p : Position) :
    ∃ ts q, tokensFrom p (print ls ++ rest) = ts ++ tokensFrom q rest ∧ ts.map Token.bare = ls := by
  induction ls generalizing p with
  | nil => exact ⟨[], p, rfl, rfl⟩
  | cons l r ih =>
    obtain ⟨t, q, htokens, rfl⟩ := h.1.exists_tokensFrom p
    obtain ⟨ts, q', hrest, rfl⟩ := ih h.2 q
    refine ⟨t :: ts, q', ?_, rfl⟩
    rw [print_cons, List.append_assoc, htokens, hrest]
    rfl

/-! ## Words -/

/-- The character does not go on with a word, nor does it make a literal of one. -/
def endsWord (c : Char) : Bool := !isIdentifierTail c && c != '\'' && c != '"' && c != '#'

/-- No literal begins behind letters that such a character follows. -/
def opensLiteral (c : Char) : Bool := c == '\'' || c == '"' || c == '#'

theorem opensLiteral_of_isIdentifierTail {c : Char} (h : isIdentifierTail c = true) :
    opensLiteral c = false := by
  simp only [opensLiteral, Bool.or_eq_false_iff, beq_eq_false_iff_ne]
  refine ⟨⟨?_, ?_⟩, ?_⟩ <;> rintro rfl <;> exact absurd h (by decide)

theorem endsWord_iff {c : Char} :
    endsWord c = true ↔ isIdentifierTail c = false ∧ opensLiteral c = false := by
  simp [endsWord, opensLiteral, and_assoc]

section Word

variable {c : Char} {r rest : List Char}

theorem opensLiteral_head (hr : r.all isIdentifierTail = true)
    (hrest : ∀ c ∈ rest.head?, endsWord c = true) :
    ∀ c ∈ (r ++ rest).head?, opensLiteral c = false := by
  intro c hc
  cases r with
  | nil => exact (endsWord_iff.1 (hrest c hc)).2
  | cons d r =>
    obtain rfl : d = c := by simpa using hc
    exact opensLiteral_of_isIdentifierTail (by simp_all)

theorem rawStringStart_eq_none (h : ∀ c ∈ r.head?, opensLiteral c = false) :
    rawStringStart r = none := by
  cases r with
  | nil => rfl
  | cons c r =>
    have hc := h c rfl
    simp only [opensLiteral, Bool.or_eq_false_iff, beq_eq_false_iff_ne] at hc
    have hhash : runLength (· == '#') (c :: r) = 0 := by simp [runLength, hc.2]
    rw [rawStringStart, hhash, List.drop_zero]
    split
    · next heq => exact absurd (List.cons.inj heq).1 hc.1.2
    · rfl

/-- A word is cut off before what ends it. -/
theorem wordLexeme_append (hr : r.all isIdentifierTail = true)
    (hrest : ∀ c ∈ rest.head?, endsWord c = true) :
    wordLexeme c (r ++ rest) = (.word, r.length + 1) := by
  have hclear := opensLiteral_head hr hrest
  have hrun : runLength isIdentifierTail (r ++ rest) = r.length :=
    runLength_append hr fun d hd => (endsWord_iff.1 (hrest d hd)).1
  -- behind an `r` the rest of the word is clear as well
  have htail : ∀ q, r ++ rest = 'r' :: q → rawStringStart q = none := by
    intro q hq
    cases r with
    | nil =>
      have hend := (endsWord_iff.1 (hrest 'r' (by simp_all))).1
      exact absurd hend (by decide)
    | cons d r =>
      obtain ⟨-, rfl⟩ := List.cons.inj hq
      exact rawStringStart_eq_none (opensLiteral_head (by simp_all) hrest)
  unfold wordLexeme
  split
  · next q heq => exact absurd (hclear '\'' (by simp [heq])) (by decide)
  · next q heq => exact absurd (hclear '"' (by simp [heq])) (by decide)
  · next q heq => exact absurd (hclear '"' (by simp [heq])) (by decide)
  · next q heq => simp [htail q heq, hrun]
  · next q heq => simp [htail q heq, hrun]
  · next d q heq => exact absurd (hclear '#' (by simp [heq])) (by decide)
  · simp [rawStringStart_eq_none hclear, hrun]
  · rw [hrun]

theorem lexeme_of_isWordStart (hc : isWordStart c = true) : lexeme c r = wordLexeme c r := by
  unfold lexeme
  split
  all_goals first
    | exact absurd hc (by decide)
    | simp [hc]

end Word

/-- What holds of no white space holds of no character that is white space. -/
theorem isSpace_eq_false {p : Char → Bool} (h : " \t\n\r\x0b\x0c".toList.all (!p ·) = true) {c : Char}
    (hc : p c = true) : isSpace c = false := by
  rw [Bool.eq_false_iff]
  intro hspace
  simp only [isSpace, Bool.or_eq_true, beq_iff_eq] at hspace
  rcases hspace with ((((rfl | rfl) | rfl) | rfl) | rfl) | rfl <;> simp_all

theorem isSpace_of_isWordStart {c : Char} (hc : isWordStart c = true) : isSpace c = false :=
  isSpace_eq_false (by decide) hc

theorem isBlank_of_isSpace {c : Char} (h : isSpace c = true) : isBlank c = true := by
  simp only [isSpace, Bool.or_eq_true, beq_iff_eq] at h
  rcases h with ((((rfl | rfl) | rfl) | rfl) | rfl) | rfl <;> decide

/-- A word is cut off whole. -/
theorem lexeme_of_isWord {c : Char} {r rest : List Char} (hw : isWord (c :: r) = true)
    (hrest : ∀ c ∈ rest.head?, endsWord c = true) :
    isWordStart c = true ∧ lexeme c (r ++ rest) = (.word, r.length + 1) := by
  unfold isWord at hw
  split at hw
  · next d q heq =>
    obtain ⟨rfl, rfl⟩ := List.cons.inj heq
    obtain ⟨hd, hq⟩ := Bool.and_eq_true_iff.1 hw
    have hrun : runLength isIdentifierTail (q ++ rest) = q.length :=
      runLength_append hq fun e he => (endsWord_iff.1 (hrest e he)).1
    refine ⟨by decide, ?_⟩
    rw [lexeme_of_isWordStart (by decide)]
    simp [wordLexeme, hd, hrun]
  · next d q _ heq =>
    obtain ⟨rfl, rfl⟩ := List.cons.inj heq
    obtain ⟨hc, hr⟩ := Bool.and_eq_true_iff.1 hw
    exact ⟨hc, (lexeme_of_isWordStart hc).trans (wordLexeme_append hr hrest)⟩
  · simp at hw

/-- **A word stands well before what ends it.** -/
theorem before_word {space rest : List Char} {w : String} (hspace : space.all isSpace = true)
    (hw : isWord w.toList = true) (hrest : ∀ c ∈ rest.head?, endsWord c = true) :
    Before ⟨.word, space, w⟩ rest := by
  obtain ⟨c, r, hcr⟩ := List.exists_cons_of_ne_nil (ne_nil_of_isWord hw)
  obtain ⟨hc, hlexeme⟩ := lexeme_of_isWord (hcr ▸ hw) hrest
  exact ⟨hspace, c, r, hcr, isSpace_of_isWordStart hc, hlexeme⟩

/-! ## Signs -/

/-- The signs that no other sign joins. -/
def loneSigns : List Char := ['(', ')', '[', ']', '\x7b', '\x7d', '<', '>', ',', ';', '#', '!', '&']

theorem lexeme_of_mem_loneSigns {c : Char} (hc : c ∈ loneSigns) (r : List Char) :
    isSpace c = false ∧ lexeme c r = (.punctuation, 1) := by
  simp only [loneSigns, List.mem_cons, List.not_mem_nil, or_false] at hc
  rcases hc with rfl | rfl | rfl | rfl | rfl | rfl | rfl | rfl | rfl | rfl | rfl | rfl | rfl <;>
    exact ⟨by decide, rfl⟩

/-- **A lone sign stands well before everything.** -/
theorem before_loneSign {space : List Char} {c : Char} (hspace : space.all isSpace = true)
    (hc : c ∈ loneSigns) (rest : List Char) :
    Before ⟨.punctuation, space, String.singleton c⟩ rest := by
  obtain ⟨hblank, hlexeme⟩ := lexeme_of_mem_loneSigns hc rest
  exact ⟨hspace, c, [], String.toList_singleton c, hblank, hlexeme⟩

theorem before_colons {space : List Char} (hspace : space.all isSpace = true) (rest : List Char) :
    Before ⟨.punctuation, space, "::"⟩ rest :=
  ⟨hspace, ':', [':'], by simp, by decide, rfl⟩

/-- **A colon or an equals sign stands well before what does not join it.** -/
theorem before_openSign {space rest : List Char} {c : Char} (hspace : space.all isSpace = true)
    (hc : c = ':' ∨ c = '=') (hrest : ∀ d ∈ rest.head?, d ≠ ':' ∧ d ≠ '>') :
    Before ⟨.punctuation, space, String.singleton c⟩ rest := by
  have hnone : joinedPunctuation.find? (·.isPrefixOf (c :: rest)) = none := by
    cases rest with
    | nil => rcases hc with rfl | rfl <;> rfl
    | cons d r =>
      obtain ⟨hcolon, hangle⟩ := hrest d rfl
      rcases hc with rfl | rfl <;> simp [joinedPunctuation, hcolon.symm, hangle.symm]
  refine ⟨hspace, c, [], String.toList_singleton c, by rcases hc with rfl | rfl <;> decide, ?_⟩
  have hlexeme : lexeme c rest = (.punctuation, 1) := by
    rcases hc with rfl | rfl <;> simp [lexeme, hnone] <;> rfl
  rw [List.nil_append, hlexeme]
  rfl

/-! ## Lifetimes, numbers and texts -/

/-- **A lifetime stands well before a blank.** -/
theorem before_lifetime {space rest : List Char} {c : Char} {r : List Char}
    (hspace : space.all isSpace = true) (hc : isWordStart c = true)
    (hr : r.all isIdentifierTail = true) (hrest : ∀ c ∈ rest.head?, endsWord c = true) :
    Before ⟨.lifetime, space, String.ofList ('\'' :: c :: r)⟩ rest := by
  refine ⟨hspace, '\'', c :: r, String.toList_ofList, by decide, ?_⟩
  have hrun : runLength isIdentifierTail (r ++ rest) = r.length :=
    runLength_append hr fun e he => (endsWord_iff.1 (hrest e he)).1
  -- no literal of one character stands here, since no quote follows the first character
  have hcharacter : characterLength (c :: (r ++ rest)) = none := by
    have hquote := opensLiteral_head hr hrest
    have hfirst : c ≠ '\'' ∧ c ≠ '\\' := by
      constructor <;> rintro rfl <;> exact absurd hc (by decide)
    unfold characterLength
    split
    · next heq => exact absurd (List.cons.inj heq).1 hfirst.1
    · next heq => exact absurd (List.cons.inj heq).1 hfirst.2
    · next heq => exact absurd (hquote '\'' (by simp [(List.cons.inj heq).2])) (by decide)
    · rfl
  simp [lexeme, hcharacter, hc, hrun]

/-- **A number in digits stands well before what no identifier goes on with.** -/
theorem before_number {space rest : List Char} {c : Char} {r : List Char}
    (hspace : space.all isSpace = true) (hc : c.isDigit = true) (hr : r.all Char.isDigit = true)
    (hrest : ∀ d ∈ rest.head?, isIdentifierTail d = false ∧ d ≠ '.') :
    Before ⟨.number, space, String.ofList (c :: r)⟩ rest := by
  refine ⟨hspace, c, r, String.toList_ofList, isSpace_eq_false (by decide) hc, ?_⟩
  rw [lexeme_of_isDigit hc, numberLength_append hr hrest]

/-- The text between two quotes, where nothing is escaped. -/
theorem stringLength_append {r rest : List Char} (hr : ∀ c ∈ r, c ≠ '"' ∧ c ≠ '\\') :
    stringLength (r ++ '"' :: rest) = some (r.length + 1) := by
  induction r with
  | nil => rfl
  | cons c r ih =>
    obtain ⟨hquote, hescape⟩ := hr c List.mem_cons_self
    rw [List.cons_append, stringLength, ih fun d hd => hr d (List.mem_cons_of_mem _ hd)]
    · rfl
    · exact hquote
    · rintro d s rfl
      exact absurd rfl hescape

/-- **A text in quotes stands well before everything.** -/
theorem before_text {space : List Char} {r : List Char} (hspace : space.all isSpace = true)
    (hr : ∀ c ∈ r, c ≠ '"' ∧ c ≠ '\\') (rest : List Char) :
    Before ⟨.text, space, String.ofList ('"' :: r ++ ['"'])⟩ rest := by
  refine ⟨hspace, '"', r ++ ['"'], by simp, by decide, ?_⟩
  have hlength : stringLength (r ++ ['"'] ++ rest) = some (r.length + 1) := by
    rw [List.append_assoc]
    exact stringLength_append hr
  have hlexeme : lexeme '"' (r ++ ['"'] ++ rest) =
      closed .text 1 (r ++ ['"'] ++ rest) (stringLength (r ++ ['"'] ++ rest)) := rfl
  rw [hlexeme, hlength]
  simp [closed, Nat.add_comm]

/-! ## Comments -/

/-- **A line of documentation stands well before everything**: it takes its line feed with it. -/
theorem before_documentation {space line : List Char} (hspace : space.all isSpace = true)
    (hline : '\n' ∉ line) (hslash : line.head? ≠ some '/') (rest : List Char) :
    Before ⟨.comment, space, String.ofList ('/' :: '/' :: '/' :: line ++ ['\n'])⟩ rest := by
  refine ⟨hspace, '/', '/' :: '/' :: line ++ ['\n'], by simp, by decide, ?_⟩
  have hrun : runLength (· != '\n') ('/' :: line ++ '\n' :: rest) = line.length + 1 :=
    runLength_append (by simpa [List.forall_mem_ne'] using hline) (by simp)
  have hmark : isDocumentationLine ('/' :: line ++ '\n' :: rest) = true := by
    cases line with
    | nil => rfl
    | cons c r =>
      have hc : c ≠ '/' := fun h => hslash (by simp [h])
      simp only [List.cons_append]
      unfold isDocumentationLine
      split
      · next heq => exact absurd (List.cons.inj (List.cons.inj heq).2).1 hc
      · rfl
      · rfl
      · simp_all
  have hlexeme : lexeme '/' ('/' :: ('/' :: line ++ '\n' :: rest)) =
      (.comment, line.length + 4) := by
    simp only [lexeme, hrun, hmark]
    simp
  simpa using hlexeme

/-- **A line with an ordinary comment stands well before its end.** -/
theorem before_comment {space line : List Char} (hspace : space.all isSpace = true)
    (hline : '\n' ∉ line) (rest : List Char) :
    Before ⟨.comment, space, String.ofList ('/' :: '/' :: ' ' :: line)⟩ ('\n' :: rest) := by
  refine ⟨hspace, '/', '/' :: ' ' :: line, by simp, by decide, ?_⟩
  have hrun : runLength (· != '\n') (' ' :: line ++ '\n' :: rest) = line.length + 1 :=
    runLength_append (by simpa [List.forall_mem_ne'] using hline) (by simp)
  have hlexeme : lexeme '/' ('/' :: (' ' :: line ++ '\n' :: rest)) =
      (.comment, line.length + 3) := by
    simp only [lexeme, hrun]
    simp [isDocumentationLine]
  simpa using hlexeme

end ModelPool.Source
