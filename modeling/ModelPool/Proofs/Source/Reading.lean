import ModelPool.Proofs.Source.Lexemes
import ModelPool.Source.Group

/-!
# Proofs/Source/Reading — what a reader reads from a run of lexemes

A reader looks at the kinds and texts of tokens and not at their places, so what it does is told by the
lexemes ahead: `Reads` says that it succeeds, what it gives and which lexemes it leaves.  Readings in
sequence are put together by `reads_bind`, so a grammar is run through without its cursors.

* `reads_bind` — two readings in sequence.
* `reads_since` — the text between an earlier place and this one.
-/

namespace ModelPool.Source

open Lexeme

/-! ## Lexemes ahead -/

namespace Cursor

/-- The lexemes ahead. -/
def lexemes (c : Cursor) : List Lexeme := c.rest.map Token.bare

/-- The number of all tokens, before and behind the place. -/
def total (c : Cursor) : Nat := c.taken + c.rest.length

@[simp] theorem length_lexemes (c : Cursor) : c.lexemes.length = c.rest.length := List.length_map _

end Cursor

/-- The lexemes from the first that is no comment. -/
def visible (ls : List Lexeme) : List Lexeme := ls.dropWhile Lexeme.isComment

@[simp] theorem visible_nil : visible [] = [] := rfl

theorem visible_cons {l : Lexeme} (h : l.isComment = false) (r : List Lexeme) :
    visible (l :: r) = l :: r := by simp [visible, h]

namespace Cursor

variable (c : Cursor)

theorem lexemes_passComments : c.passComments.lexemes = visible c.lexemes := by
  have hmap : c.rest.map Token.bare = c.lexemes := rfl
  have hdrop : (c.rest.dropWhile Token.isComment).map Token.bare = visible c.lexemes := by
    rw [visible, ← hmap, List.dropWhile_map]
    rfl
  unfold passComments
  dsimp only
  split
  · next hnone =>
    have hnil : c.rest.takeWhile Token.isComment = [] := List.getLast?_eq_none_iff.1 hnone
    have hall := List.takeWhile_append_dropWhile (p := Token.isComment) (l := c.rest)
    rw [hnil, List.nil_append] at hall
    rw [← hdrop, hall]
    rfl
  · exact hdrop

theorem total_passComments : c.passComments.total = c.total := by
  unfold passComments
  dsimp only
  split
  · rfl
  · have hlength := congrArg List.length
      (List.takeWhile_append_dropWhile (p := Token.isComment) (l := c.rest))
    simp only [List.length_append] at hlength
    simp only [total]
    omega

theorem errors_passComments : c.passComments.errors = c.errors := by
  unfold passComments
  dsimp only
  split <;> rfl

theorem ahead?_map_bare : c.ahead?.map Token.bare = (visible c.lexemes).head? := by
  rw [← lexemes_passComments, ahead?, lexemes, List.head?_map]

theorem lexemes_forward : c.forward.lexemes = (visible c.lexemes).tail := by
  rw [← lexemes_passComments]
  unfold forward
  dsimp only
  split
  · next h => simp [lexemes, h]
  · next h => simp [lexemes, h]

theorem total_forward : c.forward.total = c.total := by
  rw [← total_passComments c]
  unfold forward
  dsimp only
  split
  · rfl
  · next h => simp only [total, h, List.length_cons]; omega

theorem errors_forward : c.forward.errors = c.errors := by
  rw [← errors_passComments c]
  unfold forward
  dsimp only
  split <;> rfl

end Cursor

/-! ## Readings -/

/-- **A reader reads from these lexemes**, gives a result and leaves other lexemes; the source has
`N` tokens in all, and no error is found. -/
def Reads {α : Type} (N : Nat) (m : Reader α) (ls : List Lexeme) (a : α) (ls' : List Lexeme) : Prop :=
  ∀ c : Cursor, c.total = N → c.lexemes = ls → ∃ c' : Cursor, m.run c = some (a, c') ∧
    c'.total = N ∧ c'.lexemes = ls' ∧ c'.errors = c.errors

/-- **A reader finds something** with a property, and leaves other lexemes. -/
def Finds {α : Type} (N : Nat) (m : Reader α) (ls : List Lexeme) (P : α → Prop) (ls' : List Lexeme) :
    Prop :=
  ∀ c : Cursor, c.total = N → c.lexemes = ls → ∃ (a : α) (c' : Cursor), m.run c = some (a, c') ∧ P a ∧
    c'.total = N ∧ c'.lexemes = ls' ∧ c'.errors = c.errors

/-- What is read is found. -/
theorem Reads.finds {α : Type} {N : Nat} {m : Reader α} {ls ls' : List Lexeme} {a : α} {P : α → Prop}
    (hm : Reads N m ls a ls') (ha : P a) : Finds N m ls P ls' := by
  intro c hN hc
  obtain ⟨c', hrun, hrest⟩ := hm c hN hc
  exact ⟨a, c', hrun, ha, hrest⟩

theorem Finds.imp {α : Type} {N : Nat} {m : Reader α} {ls ls' : List Lexeme} {P Q : α → Prop}
    (hm : Finds N m ls P ls') (h : ∀ a, P a → Q a) : Finds N m ls Q ls' := by
  intro c hN hc
  obtain ⟨a, c', hrun, ha, hrest⟩ := hm c hN hc
  exact ⟨a, c', hrun, h a ha, hrest⟩

/-- A reader gives up at these lexemes. -/
def Refuses {α : Type} (m : Reader α) (ls : List Lexeme) : Prop :=
  ∀ c : Cursor, c.lexemes = ls → m.run c = none

namespace Reader

variable {α β : Type} {N : Nat} {m : Reader α} {f : α → Reader β} {ls ls' ls'' r : List Lexeme}
  {l : Lexeme} {a : α} {b : β} {s : String}

theorem reads_pure : Reads N (pure a) ls a ls := fun c hN hc => ⟨c, rfl, hN, hc, rfl⟩

theorem reads_pure_of_eq {b : α} (h : b = a) : Reads N (pure b) ls a ls := h ▸ reads_pure

/-- **Two readings in sequence.** -/
theorem reads_bind (hm : Reads N m ls a ls') (hf : Reads N (f a) ls' b ls'') :
    Reads N (m >>= f) ls b ls'' := by
  intro c hN hc
  obtain ⟨c', hrun, hN', hc', herrors⟩ := hm c hN hc
  obtain ⟨c'', hrun', hN'', hc'', herrors'⟩ := hf c' hN' hc'
  refine ⟨c'', ?_, hN'', hc'', herrors'.trans herrors⟩
  rw [StateT.run_bind, hrun]
  exact hrun'

/-- A reading on the branch that is taken. -/
theorem reads_if {n : Reader α} {p : Prop} [Decidable p] (hp : p) (hm : Reads N m ls a ls') :
    Reads N (if p then m else n) ls a ls' := by
  rwa [if_pos hp]

theorem reads_if_not {n : Reader α} {p : Prop} [Decidable p] (hp : ¬ p) (hm : Reads N m ls a ls') :
    Reads N (if p then n else m) ls a ls' := by
  rwa [if_neg hp]

/-- The place that is kept is one where these lexemes are ahead. -/
theorem reads_get {f : Cursor → Reader β}
    (hf : ∀ c : Cursor, c.total = N → c.lexemes = ls → Reads N (f c) ls b ls') :
    Reads N (get >>= f) ls b ls' := by
  intro c hN hc
  exact hf c hN hc c hN hc

/-! ## What is found -/

variable {P : α → Prop} {Q : β → Prop}

/-- What is found in sequence. -/
theorem finds_bind (hm : Finds N m ls P ls') (hf : ∀ a, P a → Finds N (f a) ls' Q ls'') :
    Finds N (m >>= f) ls Q ls'' := by
  intro c hN hc
  obtain ⟨a, c', hrun, ha, hN', hc', herrors⟩ := hm c hN hc
  obtain ⟨b, c'', hrun', hb, hN'', hc'', herrors'⟩ := hf a ha c' hN' hc'
  refine ⟨b, c'', ?_, hb, hN'', hc'', herrors'.trans herrors⟩
  rw [StateT.run_bind, hrun]
  exact hrun'

/-- Behind a reading something is found. -/
theorem finds_of_reads (hm : Reads N m ls a ls') (hf : Finds N (f a) ls' Q ls'') :
    Finds N (m >>= f) ls Q ls'' :=
  finds_bind (hm.finds rfl) fun _ h => h ▸ hf

theorem finds_pure (ha : P a) : Finds N (pure a) ls P ls := Reads.finds reads_pure ha

theorem finds_if {n : Reader α} {p : Prop} [Decidable p] (hp : p) (hm : Finds N m ls P ls') :
    Finds N (if p then m else n) ls P ls' := by
  rwa [if_pos hp]

theorem finds_if_not {n : Reader α} {p : Prop} [Decidable p] (hp : ¬ p) (hm : Finds N m ls P ls') :
    Finds N (if p then n else m) ls P ls' := by
  rwa [if_neg hp]

theorem finds_map {g : α → β} (hm : Finds N m ls (fun a => Q (g a)) ls') : Finds N (g <$> m) ls Q ls' := by
  intro c hN hc
  obtain ⟨a, c', hrun, hrest⟩ := hm c hN hc
  exact ⟨g a, c', by rw [StateT.run_map, hrun]; rfl, hrest⟩

theorem finds_get {f : Cursor → Reader β}
    (hf : ∀ c : Cursor, c.total = N → c.lexemes = ls → Finds N (f c) ls Q ls') :
    Finds N (get >>= f) ls Q ls' := by
  intro c hN hc
  exact hf c hN hc c hN hc

/-- The line of the next token is some number. -/
theorem finds_line {f : Nat → Reader β} (hf : ∀ n, Finds N (f n) ls Q ls') :
    Finds N (line >>= f) ls Q ls' := by
  intro c hN hc
  exact hf _ c hN hc

/-! ## Giving up -/

theorem refuses_bind (hm : Refuses m ls) : Refuses (m >>= f) ls := by
  intro c hc
  rw [StateT.run_bind, hm c hc]
  rfl

theorem refuses_bind_of_reads (hm : ∀ N, Reads N m ls a ls') (hf : Refuses (f a) ls') :
    Refuses (m >>= f) ls := by
  intro c hc
  obtain ⟨c', hrun, -, hc', -⟩ := hm _ c rfl hc
  rw [StateT.run_bind, hrun]
  exact hf c' hc'

theorem refuses_failure : Refuses (failure : Reader α) ls := fun _ _ => rfl

theorem reads_orElse_of_refuses {n : Reader α} (hm : Refuses m ls) (hn : Reads N n ls a ls') :
    Reads N (m <|> n) ls a ls' := by
  intro c hN hc
  obtain ⟨c', hrun, hrest⟩ := hn c hN hc
  refine ⟨c', ?_, hrest⟩
  have hor : (m <|> n).run c = (m.run c <|> n.run c) := rfl
  rw [hor, hm c hc]
  exact hrun

/-- The first of two readings that may be taken. -/
theorem reads_orElse {n : Reader α} (hm : Reads N m ls a ls') : Reads N (m <|> n) ls a ls' := by
  intro c hN hc
  obtain ⟨c', hrun, hrest⟩ := hm c hN hc
  refine ⟨c', ?_, hrest⟩
  have hor : (m <|> n).run c = (m.run c <|> n.run c) := rfl
  rw [hor, hrun]
  rfl

/-! ## Looking ahead -/

/-- The text of a token that may be missing. -/
def textOf (t : Option Token) : String := (t.map Token.text).getD ""

theorem run_text (c : Cursor) : text.run c = some (textOf c.ahead?, c) := by
  unfold text
  change some (_, c) = _
  cases c.ahead? <;> rfl

theorem run_textPair (c : Cursor) :
    textPair.run c = some ((textOf c.ahead?, textOf c.forward.ahead?), c) := by
  unfold textPair text
  change some ((_, _), c) = _
  cases c.ahead? <;> cases c.forward.ahead? <;> rfl

theorem run_take {kind : TokenKind} {c : Cursor} {t : Token} (ht : c.ahead? = some t) :
    (take kind).run c = if t.kind = kind then some (t.text, c.forward) else none := by
  have htoken : token?.run c = some (some t, c) := congrArg (fun t => some (t, c)) ht
  rw [take, StateT.run_bind, htoken]
  change (if t.kind = kind then (do skip; return t.text : Reader String) else failure).run c = _
  split <;> rfl

theorem bare_of_ahead? {c : Cursor} (hc : c.lexemes = ls) (h : visible ls = l :: r) :
    ∃ t, c.ahead? = some t ∧ t.bare = l := by
  have hahead := c.ahead?_map_bare
  rw [hc, h, List.head?_cons] at hahead
  exact Option.map_eq_some_iff.1 hahead

/-- The text ahead is that of the first lexeme that is no comment. -/
theorem reads_text (h : visible ls = l :: r) : Reads N text ls l.text ls := by
  intro c hN hc
  obtain ⟨t, ht, rfl⟩ := bare_of_ahead? hc h
  refine ⟨c, ?_, hN, hc, rfl⟩
  rw [run_text, ht]
  rfl

theorem reads_kind? (h : visible ls = l :: r) : Reads N kind? ls (some l.kind) ls := by
  intro c hN hc
  obtain ⟨t, ht, rfl⟩ := bare_of_ahead? hc h
  refine ⟨c, ?_, hN, hc, rfl⟩
  simp [kind?, token?, ht, Token.bare]

theorem reads_atEnd (h : visible ls = l :: r) : Reads N atEnd ls false ls := by
  intro c hN hc
  obtain ⟨t, ht, rfl⟩ := bare_of_ahead? hc h
  refine ⟨c, ?_, hN, hc, rfl⟩
  simp [atEnd, token?, ht]

/-- The token ahead is some token for the lexeme. -/
theorem reads_token {f : Option Token → Reader β} (h : visible ls = l :: r)
    (hf : ∀ t : Token, t.bare = l → Reads N (f (some t)) ls b ls') :
    Reads N (token? >>= f) ls b ls' := by
  intro c hN hc
  obtain ⟨t, ht, hbare⟩ := bare_of_ahead? hc h
  have hrun : (token? >>= f).run c = (f (some t)).run c := by rw [← ht]; rfl
  rw [hrun]
  exact hf t hbare c hN hc

/-- The text behind the next lexeme. -/
def textAhead (ls : List Lexeme) : String := ((visible ls).head?.map Lexeme.text).getD ""

theorem textAhead_of_visible (h : visible ls = l :: r) : textAhead ls = l.text := by
  simp [textAhead, h]

theorem reads_textPair (h : visible ls = l :: r) :
    Reads N textPair ls (l.text, textAhead r) ls := by
  intro c hN hc
  obtain ⟨t, ht, rfl⟩ := bare_of_ahead? hc h
  refine ⟨c, ?_, hN, hc, rfl⟩
  have hforward : c.forward.lexemes = r := by rw [c.lexemes_forward, hc, h]; rfl
  have hsecond := c.forward.ahead?_map_bare
  rw [hforward] at hsecond
  have htext : textOf c.forward.ahead? = textAhead r := by
    rw [textAhead, ← hsecond, textOf, Option.map_map]
    rfl
  rw [run_textPair, ht, htext]
  rfl

/-! ## Moving on -/

/-- Moving on takes the first lexeme that is no comment, and the comments before it. -/
theorem reads_skip (h : visible ls = l :: r) : Reads N skip ls () r := by
  intro c hN hc
  refine ⟨c.forward, rfl, ?_, ?_, c.errors_forward⟩
  · rw [c.total_forward, hN]
  · rw [c.lexemes_forward, hc, h]
    rfl

theorem reads_optional (h : visible ls = l :: r) (hs : l.text = s) :
    Reads N (optional s) ls true r := by
  refine reads_bind (reads_text h) ?_
  rw [if_pos (beq_iff_eq.2 hs)]
  exact reads_bind (reads_skip h) reads_pure

theorem reads_optional_of_ne (h : visible ls = l :: r) (hs : l.text ≠ s) :
    Reads N (optional s) ls false ls := by
  refine reads_bind (reads_text h) ?_
  rw [if_neg (by simpa using hs)]
  exact reads_pure

theorem reads_expect (h : visible ls = l :: r) (hs : l.text = s) : Reads N (expect s) ls () r :=
  reads_bind (reads_optional h hs) reads_pure

theorem refuses_expect (h : visible ls = l :: r) (hs : l.text ≠ s) : Refuses (expect s) ls :=
  refuses_bind_of_reads (fun _ => reads_optional_of_ne h hs) refuses_failure

theorem reads_take (h : visible ls = l :: r) : Reads N (take l.kind) ls l.text r := by
  intro c hN hc
  obtain ⟨t, ht, rfl⟩ := bare_of_ahead? hc h
  refine ⟨c.forward, ?_, ?_, ?_, c.errors_forward⟩
  · exact (run_take ht).trans (if_pos rfl)
  · rw [c.total_forward, hN]
  · rw [c.lexemes_forward, hc, h]
    rfl

theorem reads_word (h : visible ls = l :: r) (hl : l.kind = .word) : Reads N word ls l.text r := by
  rw [word, ← hl]
  exact reads_take h

theorem reads_take? {kind : TokenKind} (h : visible ls = l :: r) (hl : l.kind = kind) :
    Reads N (take? kind) ls (some l.text) r := by
  subst hl
  refine reads_bind (reads_kind? h) ?_
  rw [if_pos rfl]
  exact reads_bind (reads_take h) reads_pure

theorem reads_take?_of_ne {kind : TokenKind} (h : visible ls = l :: r) (hl : l.kind ≠ kind) :
    Reads N (take? kind) ls none ls := by
  refine reads_bind (reads_kind? h) ?_
  rw [if_neg (by simpa using hl)]
  exact reads_pure

theorem reads_close (h : visible ls = l :: r) (hs : l.text = s) : Reads N (close s) ls () r := by
  refine reads_bind (reads_atEnd h) ?_
  rw [if_neg (by simp)]
  exact reads_expect h hs

theorem reads_closes (h : visible ls = l :: r) : Reads N (closes s) ls (l.text == s) ls := by
  refine reads_bind (reads_atEnd h) (reads_bind (reads_text h) ?_)
  exact reads_pure

/-! ## Texts -/

/-- **The text between an earlier place and this one** is that of the lexemes read since. -/
theorem reads_since {start : Cursor} {done : List Lexeme} (hN : start.total = N)
    (hstart : start.lexemes = done ++ ls) :
    Reads N (since start) ls (String.ofList (spanned (visible done))) ls := by
  intro c hcN hc
  refine ⟨c, ?_, hcN, hc, rfl⟩
  have hlength : c.taken - start.taken = done.length := by
    have hall := congrArg List.length hstart
    have hahead := congrArg List.length hc
    simp only [Cursor.length_lexemes, List.length_append] at hall hahead
    simp only [Cursor.total] at hN hcN
    omega
  have htake : (start.rest.take done.length).map Token.bare = done := by
    rw [List.map_take]
    have hmap : start.rest.map Token.bare = done ++ ls := hstart
    rw [hmap, List.take_left']
    rfl
  have hvisible : ((start.rest.take done.length).dropWhile Token.isComment).map Token.bare =
      visible done := by
    rw [visible, ← htake, List.dropWhile_map, htake]
    rfl
  have hupTo : Token.spanned (start.upTo c) = spanned (visible done) := by
    rw [Cursor.upTo, hlength, Token.spanned_eq, hvisible]
  simp [since, hupTo]

end Reader

end ModelPool.Source
