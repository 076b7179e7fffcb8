import ModelPool.Proofs.Source.Comments

/-!
# Proofs/Source/AttributeLayout — how an attribute is laid out

    #[model(a = 1)]        # [ model (a = 1) ]        #[ /* c */ model(a = 1)]
    tight                  plain                      neither

Between any two tokens of an attribute may stand white space and comments.  A layout is *plain* if there is only
white space outside of the arguments, and none inside the path or before the mark of an inner attribute.

* `AttributeLayout` — an attribute with what stands between its tokens.
* `AttributeLayout.tight` — the same tokens with nothing between them.
* `AttributeLayout.IsPlain` — the plain layouts.
-/

namespace ModelPool

open Text

namespace Source

open Lexeme

/-! ## Tokens and what stands before them -/

/-- **A token with the comments before it.** -/
structure Spaced where
  comments : List Lexeme
  lexeme : Lexeme

namespace Spaced

variable {p : Spaced} {ps : List Spaced}

/-- All that has been passed with the token. -/
def lexemes (p : Spaced) : List Lexeme := p.comments ++ [p.lexeme]

/-- The text between the token before and this one. -/
def gap (p : Spaced) : List Char := print p.comments ++ p.lexeme.space

/-- The text of the token itself. -/
def text (p : Spaced) : List Char := p.lexeme.text.toList

/-- The same token right behind the one before it. -/
def tight (p : Spaced) : Spaced := ⟨[], { p.lexeme with space := [] }⟩

@[simp] theorem gap_tight (p : Spaced) : p.tight.gap = [] := rfl

@[simp] theorem text_tight (p : Spaced) : p.tight.text = p.text := rfl

@[simp] theorem print_lexemes (p : Spaced) : print p.lexemes = p.gap ++ p.text := by
  simp [lexemes, gap, text]

/-- The text that several tokens are laid out in. -/
def printed (ps : List Spaced) : List Char := print (ps.flatMap lexemes)

/-- The texts of several tokens alone. -/
def texts (ps : List Spaced) : List Char := ps.flatMap text

@[simp] theorem printed_nil : printed [] = [] := rfl

@[simp] theorem printed_cons (p : Spaced) (ps : List Spaced) :
    printed (p :: ps) = p.gap ++ (p.text ++ printed ps) := by
  rw [printed, List.flatMap_cons, Lexeme.print_append, print_lexemes, List.append_assoc]
  rfl

@[simp] theorem texts_nil : texts [] = [] := rfl

@[simp] theorem texts_cons (p : Spaced) (ps : List Spaced) : texts (p :: ps) = p.text ++ texts ps :=
  List.flatMap_cons

theorem printed_append (ps qs : List Spaced) : printed (ps ++ qs) = printed ps ++ printed qs := by
  rw [printed, List.flatMap_append, Lexeme.print_append]
  rfl

theorem printed_tight (ps : List Spaced) : printed (ps.map tight) = texts ps := by
  induction ps with
  | nil => rfl
  | cons p ps ih => simp [ih]

/-- **White space and comments** stand before the token. -/
structure IsSpaced (p : Spaced) : Prop where
  comments : ∀ l ∈ p.comments, IsComment l.text.toList
  space : ∀ l ∈ p.lexemes, l.space.all isSpace = true

theorem blank_of_space {s : List Char} (h : s.all isSpace = true) : ∀ c ∈ s, isBlank c = true :=
  fun c hc => isBlank_of_isSpace (List.all_eq_true.1 h c hc)

/-- **Where no comment stands** there are only blanks. -/
theorem IsSpaced.blank (h : p.IsSpaced) (hnone : p.comments = []) : ∀ c ∈ p.gap, isBlank c = true := by
  rw [gap, hnone, Lexeme.print_nil, List.nil_append]
  exact blank_of_space (h.space _ (List.mem_append_right _ (List.mem_singleton_self _)))

/-- **A comment begins with a slash**, so where comments stand that is what is read behind the blanks. -/
theorem IsSpaced.exists_slash (h : p.IsSpaced) (hsome : p.comments ≠ []) :
    ∃ bs r, p.gap = bs ++ '/' :: r ∧ ∀ c ∈ bs, isBlank c = true := by
  obtain ⟨l, ls, hcomments⟩ := List.exists_cons_of_ne_nil hsome
  obtain ⟨r, hr⟩ : ∃ r, l.text.toList = '/' :: r := by
    have hl := h.comments l (by rw [hcomments]; exact List.mem_cons_self)
    generalize l.text.toList = cs at hl
    cases hl with
    | line r => exact ⟨'/' :: r, rfl⟩
    | block r => exact ⟨'*' :: (r ++ ['*', '/']), rfl⟩
  refine ⟨l.space, r ++ print ls ++ p.lexeme.space, by simp [gap, hcomments, hr], blank_of_space (h.space l ?_)⟩
  rw [lexemes, hcomments]
  exact List.mem_cons_self

/-- No comment stands where nothing but blanks does. -/
theorem IsSpaced.comments_eq_nil (h : p.IsSpaced) (hgap : squeeze p.gap = []) : p.comments = [] := by
  by_contra hsome
  obtain ⟨bs, r, hslash, -⟩ := h.exists_slash hsome
  rw [hslash, squeeze_append, squeeze_cons (by decide)] at hgap
  exact absurd hgap (by simp)

/-- What is read behind white space and comments. -/
theorem IsSpaced.trimStart_gap (h : p.IsSpaced) (cs : List Char) :
    (p.comments = [] → trimStart (p.gap ++ cs) = trimStart cs) ∧
      (p.comments ≠ [] → ∃ r, trimStart (p.gap ++ cs) = '/' :: r) := by
  refine ⟨fun hnone => trimStart_append (h.blank hnone) cs, fun hsome => ?_⟩
  obtain ⟨bs, r, hslash, hbs⟩ := h.exists_slash hsome
  refine ⟨r ++ cs, ?_⟩
  rw [hslash, List.append_assoc, trimStart_append hbs, trimStart, List.cons_append,
    List.dropWhile_cons_of_neg (by decide)]

theorem IsSpaced.tight (p : Spaced) : p.tight.IsSpaced where
  comments := List.forall_mem_nil _
  space := List.forall_mem_singleton.2 rfl

end Spaced

/-! ## Layouts -/

/-- **The arguments of an attribute**: none, a value behind an equals sign, or whatever stands in brackets. -/
inductive ArgumentLayout where
  | none
  | value (sign first : Spaced) (rest : List Lexeme)
  | group (opening : Spaced) (inside : List Lexeme) (closing : Lexeme)

namespace ArgumentLayout

def lexemes : ArgumentLayout → List Lexeme
  | none => []
  | value sign first rest => sign.lexemes ++ (first.lexemes ++ rest)
  | group opening inside closing => opening.lexemes ++ (inside ++ [closing])

/-- The same arguments right behind the path; what stands inside of them is left as it is. -/
def tight : ArgumentLayout → ArgumentLayout
  | none => none
  | value sign first rest => value sign.tight first.tight rest
  | group opening inside closing => group opening.tight inside closing

/-- The text of the arguments, without the signs that enclose them. -/
def text? : ArgumentLayout → Option (List Char)
  | none => .none
  | value _ first rest => some (first.text ++ print rest)
  | group _ inside closing => some (print inside ++ closing.space)

/-- A group stands in parentheses. -/
def IsStandard : ArgumentLayout → Prop
  | none | value _ _ _ => True
  | group opening _ _ => opening.lexeme.text = "("

/-- **No comment** stands before the arguments or the sign that begins them, nor white space before another
bracket. -/
def IsPlain : ArgumentLayout → Prop
  | none => True
  | value sign first _ => sign.comments = [] ∧ first.comments = []
  | group opening _ _ => opening.comments = [] ∧ (opening.lexeme.text = "(" ∨ opening.gap = [])

/-- **The signs of the arguments** are those of the grammar. -/
def IsGrammatical : ArgumentLayout → Prop
  | none => True
  | value sign first _ => sign.lexeme.text = "=" ∧ sign.IsSpaced ∧ first.IsSpaced
  | group opening _ closing => closingBracket? opening.lexeme.text = some closing.text ∧ opening.IsSpaced

theorem text?_tight (a : ArgumentLayout) : a.tight.text? = a.text? := by cases a <;> rfl

theorem IsStandard.tight {a : ArgumentLayout} (h : a.IsStandard) : a.tight.IsStandard := by cases a <;> exact h

theorem isPlain_tight (a : ArgumentLayout) : a.tight.IsPlain := by
  cases a with
  | none => trivial
  | value sign first rest => exact ⟨rfl, rfl⟩
  | group opening inside closing => exact ⟨rfl, .inr rfl⟩

theorem IsGrammatical.tight {a : ArgumentLayout} (h : a.IsGrammatical) : a.tight.IsGrammatical := by
  cases a with
  | none => trivial
  | value sign first rest => exact ⟨h.1, .tight _, .tight _⟩
  | group opening inside closing => exact ⟨h.1, .tight _⟩

end ArgumentLayout

/-- **An attribute, token by token**; the mark is that of an inner one. -/
structure AttributeLayout where
  hash : Lexeme
  mark : Option Spaced
  opening : Spaced
  path : List Spaced
  arguments : ArgumentLayout
  closing : Spaced

/-- A text of a path is a word, or the colons between two. -/
def IsPathText (cs : List Char) : Prop := cs = [':', ':'] ∨ isWord cs = true

namespace AttributeLayout

variable (l : AttributeLayout)

def lexemes : List Lexeme :=
  l.hash :: (l.mark.toList ++ l.opening :: l.path).flatMap Spaced.lexemes ++ l.arguments.lexemes ++
    l.closing.lexemes

/-- The text that the attribute is read from. -/
def text : String := String.ofList (spanned l.lexemes)

/-- **The same tokens without anything between them**, outside of the arguments. -/
def tight : AttributeLayout where
  hash := l.hash
  mark := l.mark.map Spaced.tight
  opening := l.opening.tight
  path := l.path.map Spaced.tight
  arguments := l.arguments.tight
  closing := l.closing.tight

/-- **What the tokens say**: the path, and the text of the arguments. -/
def meaning : Attribute where
  name := String.ofList (Spaced.texts l.path)
  args := l.arguments.text?.map fun cs => String.ofList (trim cs)

/-- **The layout follows the grammar.** -/
structure IsGrammatical : Prop where
  hash : l.hash.text = "#"
  mark : ∀ m ∈ l.mark, m.lexeme.text = "!" ∧ m.IsSpaced
  opening : l.opening.lexeme.text = "[" ∧ l.opening.IsSpaced
  path_ne_nil : l.path ≠ []
  path : ∀ p ∈ l.path, IsPathText p.text ∧ p.IsSpaced
  arguments : l.arguments.IsGrammatical
  closing : l.closing.lexeme.text = "]" ∧ l.closing.IsSpaced

/-- Only white space stands between the tokens up to the path, and nothing before the mark of an inner
attribute. -/
def OpensPlain : Prop := (∀ m ∈ l.mark, m.gap = []) ∧ l.opening.comments = []

/-- **A plain layout**: only white space stands between the tokens outside of the arguments, and nothing before
the mark of an inner attribute, inside the path, or before a bracket or a brace. -/
structure IsPlain : Prop where
  opens : l.OpensPlain
  first : ∀ p ∈ l.path.head?, p.comments = []
  path : ∀ p ∈ l.path.tail, p.gap = []
  arguments : l.arguments.IsPlain
  closing : l.closing.comments = []

/-- What stands between the brackets. -/
def content : List Char := Spaced.printed l.path ++ print l.arguments.lexemes ++ l.closing.gap

/-! ## The tight layout -/

theorem texts_tight (ps : List Spaced) : Spaced.texts (ps.map Spaced.tight) = Spaced.texts ps := by
  induction ps with
  | nil => rfl
  | cons p ps ih => rw [List.map_cons, Spaced.texts_cons, Spaced.texts_cons, ih, Spaced.text_tight]

theorem meaning_tight (l : AttributeLayout) : l.tight.meaning = l.meaning := by
  have hargs : l.tight.arguments.text? = l.arguments.text? := l.arguments.text?_tight
  rw [meaning, meaning, hargs]
  exact congrArg (fun name => Attribute.mk (String.ofList name) _) (texts_tight l.path)

theorem IsGrammatical.tight (h : l.IsGrammatical) : l.tight.IsGrammatical where
  hash := h.hash
  mark m hm := by
    obtain ⟨n, hn, rfl⟩ := Option.map_eq_some_iff.1 hm
    exact ⟨(h.mark n hn).1, .tight n⟩
  opening := ⟨h.opening.1, .tight _⟩
  path_ne_nil hnil := h.path_ne_nil (List.map_eq_nil_iff.1 hnil)
  path := List.forall_mem_map.2 fun p hp => ⟨(h.path p hp).1, .tight p⟩
  arguments := h.arguments.tight
  closing := ⟨h.closing.1, .tight _⟩

theorem isPlain_tight (l : AttributeLayout) : l.tight.IsPlain where
  opens := by
    refine ⟨fun m hm => ?_, rfl⟩
    obtain ⟨n, -, rfl⟩ := Option.map_eq_some_iff.1 hm
    rfl
  first p hp := by
    obtain ⟨q, -, rfl⟩ := List.mem_map.1 (List.mem_of_mem_head? hp)
    rfl
  path p hp := by
    obtain ⟨q, -, rfl⟩ := List.mem_map.1 (List.mem_of_mem_tail hp)
    rfl
  arguments := l.arguments.isPlain_tight
  closing := rfl

end AttributeLayout

end Source

end ModelPool
