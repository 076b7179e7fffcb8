import ModelPool.Proofs.Source.Reading
import ModelPool.Proofs.Source.TypeLexemes

/-!
# Proofs/Source/TypeReading — a printed type is read back

The grammar of types reads the lexemes of a readable type and gives the type back, wherever a type may end
behind them.

* `readsBack` — the law, with one case for each form of a type.
-/

namespace ModelPool.Source

open Lexeme TypeExpr Reader Text

/-! ## Where types begin and end -/

/-- The signs and words besides paths that a readable type begins with. -/
def typeOpenings : List String := ["&", "[", "(", "dyn", "impl"]

/-- **A lexeme that a readable type begins with.** -/
structure Opens (l : Lexeme) : Prop where
  kind : l.kind = .word ∨ l.kind = .punctuation
  text : isHead l.text = true ∨ l.text ∈ typeOpenings

namespace Opens

variable {l : Lexeme}

theorem isComment (h : Opens l) : l.isComment = false := by
  rcases h.kind with hk | hk <;> simp [Lexeme.isComment, hk]

theorem kind_ne (h : Opens l) {kind : TokenKind} (hword : kind ≠ .word)
    (hsign : kind ≠ .punctuation) : l.kind ≠ kind := by
  rcases h.kind with hk | hk <;> rw [hk]
  · exact hword.symm
  · exact hsign.symm

theorem text_ne (h : Opens l) {s : String} (hhead : isHead s = false) (hs : s ∉ typeOpenings) :
    l.text ≠ s := by
  rintro rfl
  rcases h.text with htext | htext
  · exact absurd (hhead.symm.trans htext) (by decide)
  · exact hs htext

end Opens

theorem opens_sign {space : List Char} {c : Char} (h : String.singleton c ∈ typeOpenings) :
    Opens (sign space c) := ⟨.inr rfl, .inr h⟩

theorem exists_opens {t : TypeExpr} (h : t.IsReadable) (space : List Char) :
    ∃ l r, typeLexemes space t = l :: r ∧ Opens l := by
  cases t with
  | path segments args =>
    cases segments with
    | nil => exact absurd h.1 (by decide)
    | cons first r =>
      have hfirst : isHead first = true := (Bool.and_eq_true_iff.1 h.1).1
      rw [typeLexemes, pathLexemes]
      exact ⟨_, _, rfl, .inl rfl, .inl hfirst⟩
  | reference | slice | array | tuple =>
    rw [typeLexemes]
    exact ⟨_, _, rfl, opens_sign (by decide)⟩
  | traitObject keyword bound =>
    rw [typeLexemes]
    refine ⟨_, _, rfl, .inl rfl, .inr ?_⟩
    rw [text_ofName]
    rcases h.1 with rfl | rfl <;> decide
  | verbatim text => exact h.elim

theorem exists_visible {t : TypeExpr} (h : t.IsReadable) (space : List Char)
    (ls : List Lexeme) : ∃ l r, visible (typeLexemes space t ++ ls) = l :: r ∧ Opens l := by
  obtain ⟨l, r, hl, hopens⟩ := exists_opens h space
  exact ⟨l, r ++ ls, by rw [hl]; exact visible_cons hopens.isComment _, hopens⟩

theorem ne_of_mem_typeOpenings {s t : String} (hs : s ∈ typeOpenings) (ht : t ∉ typeOpenings) :
    s ≠ t := by
  rintro rfl
  exact ht hs

/-- The signs that a type may stand before. -/
def typeStops : List String := [",", ">", ")", "]", ";", "=", openBrace]

/-- **A type ends before these lexemes.** -/
def Stops (ls : List Lexeme) : Prop := ∃ l r, visible ls = l :: r ∧ l.text ∈ typeStops

theorem stops_sign {space : List Char} {c : Char} (hc : String.singleton c ∈ typeStops)
    (r : List Lexeme) : Stops (sign space c :: r) := ⟨_, _, rfl, hc⟩

theorem ne_of_mem_typeStops {s t : String} (hs : s ∈ typeStops) (ht : t ∉ typeStops) : s ≠ t := by
  rintro rfl
  exact ht hs

/-! ## Paths -/

section Path

variable {N n : Nat} {space : List Char} {start : Cursor} {done : List String} {s : String}
  {ls ls' : List Lexeme} {b : PathForm × TypeExpr} {form : PathForm}

theorem pathLexemes_concat (hdone : done ≠ []) :
    pathLexemes space (done ++ [s]) = pathLexemes space done ++ [colons, ofName [] s] := by
  obtain ⟨first, r, rfl⟩ := List.exists_cons_of_ne_nil hdone
  have hsegments : ∀ r, segmentLexemes (r ++ [s]) = segmentLexemes r ++ [colons, ofName [] s] := by
    intro r
    induction r with
    | nil => rfl
    | cons d r ih => simp [segmentLexemes, ih]
  simp [pathLexemes, hsegments]

theorem splitPath_pathLexemes (space : List Char) {segments : List String} (h : ∀ s ∈ segments, isWord s.toList = true)
    (hne : segments ≠ []) :
    splitPath (String.ofList (spanned (visible (pathLexemes space segments)))) = segments := by
  obtain ⟨first, r, rfl⟩ := List.exists_cons_of_ne_nil hne
  have hvisible : visible (pathLexemes space (first :: r)) = pathLexemes space (first :: r) := rfl
  have htext : spanned (pathLexemes space (first :: r)) = (pathText (first :: r)).toList := by
    rw [toList_pathText_cons, ← print_segmentLexemes]
    rfl
  rw [hvisible, htext, String.ofList_toList, splitPath_pathText h]

/-- A path goes on with one more word. -/
theorem reads_pathFrom_word (hN : start.total = N)
    (hstart : start.lexemes = pathLexemes space done ++ colons :: ofName [] s :: ls)
    (hne : done ≠ []) (hdone : ∀ d ∈ done, isWord d.toList = true) (hs : isWord s.toList = true)
    (hrest : Reads N (pathFrom n start (segmentForm s) (.path (done ++ [s]) [])) ls b ls') :
    Reads N (pathFrom (n + 1) start form (.path done [])) (colons :: ofName [] s :: ls) b ls' := by
  have hnext : s ≠ "<" := by
    rintro rfl
    exact absurd hs (by decide)
  have hlexemes : start.lexemes = pathLexemes space (done ++ [s]) ++ ls := by
    rw [hstart, pathLexemes_concat hne, List.append_assoc]
    rfl
  have hwords : ∀ d ∈ done ++ [s], isWord d.toList = true :=
    List.forall_mem_append.2 ⟨hdone, by simpa using hs⟩
  have hsplit := splitPath_pathLexemes space hwords (by simp)
  unfold pathFrom
  refine reads_bind (reads_textPair rfl) (reads_if rfl (reads_bind (reads_skip rfl) ?_))
  refine reads_if_not (by rw [textAhead_of_visible rfl]; simpa using hnext) ?_
  refine reads_bind (reads_word rfl rfl) (reads_bind (reads_since hN hlexemes) ?_)
  rw [hsplit]
  exact hrest

/-- A path goes on with words. -/
theorem reads_pathFrom_words {r : List String} (hN : start.total = N)
    (hstart : start.lexemes = pathLexemes space done ++ (segmentLexemes r ++ ls))
    (hne : done ≠ []) (hdone : ∀ d ∈ done, isWord d.toList = true)
    (hr : ∀ s ∈ r, isWord s.toList = true)
    (hrest : Reads N (pathFrom n start (r.foldl (fun _ s => segmentForm s) form)
      (.path (done ++ r) [])) ls b ls') :
    Reads N (pathFrom (n + r.length) start form (.path done [])) (segmentLexemes r ++ ls) b ls' := by
  induction r generalizing done form with
  | nil => simpa [segmentLexemes] using hrest
  | cons s r ih =>
    obtain ⟨hs, hr⟩ := List.forall_mem_cons.1 hr
    refine reads_pathFrom_word hN hstart hne hdone hs (ih ?_ (by simp) ?_ hr ?_)
    · rw [hstart, pathLexemes_concat hne]
      simp [segmentLexemes]
    · exact List.forall_mem_append.2 ⟨hdone, by simpa using hs⟩
    · simpa using hrest

/-- **A path of words** is read up to what follows it. -/
theorem reads_path_words (space : List Char) {segments : List String} (hpath : isWordPath segments = true)
    (hrest : ∀ start, Reads N (pathFrom n start (pathForm segments) (.path segments [])) ls b ls') :
    Reads N (path (n + segments.length)) (pathLexemes space segments ++ ls) b ls' := by
  obtain ⟨first, r, rfl⟩ := List.exists_cons_of_ne_nil (ne_nil_of_isWordPath hpath)
  obtain ⟨hfirst, hr⟩ := Bool.and_eq_true_iff.1 hpath
  have hword : isWord first.toList = true := (Bool.and_eq_true_iff.1 hfirst).1
  have hkind : (Lexeme.ofName space first).kind ≠ .variable := nofun
  unfold path
  refine reads_get fun start hN hstart => reads_bind (reads_text rfl) ?_
  split
  · next heq =>
    obtain rfl : first = "<" := heq
    exact absurd hfirst (by decide)
  · next heq =>
    obtain rfl : first = "::" := heq
    exact absurd hfirst (by decide)
  · refine reads_bind (reads_take?_of_ne rfl hkind) (reads_bind (reads_word rfl rfl) ?_)
    exact reads_pathFrom_words hN hstart (by simp) (by simpa using hword) (List.all_eq_true.1 hr)
      (hrest start)

/-- A path ends where a type may end. -/
theorem reads_pathFrom_stop {t : TypeExpr} (hform : form.isComplete = true) (hstops : Stops ls) :
    Reads N (pathFrom (n + 1) start form t) ls (form, t) ls := by
  obtain ⟨l, r, hl, hstop⟩ := hstops
  have hne : ∀ s, s ∉ typeStops → ¬ (l.text == s) = true := fun s hs => by
    simpa using ne_of_mem_typeStops hstop hs
  unfold pathFrom
  refine reads_bind (reads_textPair hl) (reads_if_not (hne _ (by decide)) ?_)
  refine reads_if_not (hne _ (by decide)) (reads_if_not ?_ (reads_if_not ?_ ?_))
  · simp [hne "(" (by decide)]
  · simp [hne "!" (by decide)]
  · exact reads_if hform reads_pure

/-- Arguments behind a path. -/
theorem reads_pathFrom_arguments {segments : List String} {args : List TypeExpr} {ls'' : List Lexeme}
    (hform : form.takesArguments = true)
    (hargs : Reads N (typeArguments n) (sign [] '<' :: ls) args ls'')
    (hrest : Reads N (pathFrom n start .generic (.path segments args)) ls'' b ls') :
    Reads N (pathFrom (n + 1) start form (.path segments [])) (sign [] '<' :: ls) b ls' := by
  unfold pathFrom
  refine reads_bind (reads_textPair rfl) (reads_if_not (by decide) (reads_if (by decide) ?_))
  rw [hform]
  exact reads_bind hargs hrest

end Path

/-! ## Types -/

section Types

variable {N n : Nat} {space : List Char} {t : TypeExpr} {ls : List Lexeme} {l : Lexeme}
  {r : List Lexeme}

/-- No function begins where a type is read back: behind a word that may stand before `fn` its path goes
on. -/
theorem reads_atFunctionPointer (hl : visible ls = l :: r) (hopens : Opens l)
    (hnext : l.text ≠ "default" ∨ textAhead r ∈ ["::", "<"]) :
    Reads N atFunctionPointer ls false ls := by
  have hne : ∀ s, isHead s = false → s ∉ typeOpenings → (l.text == s) = false :=
    fun s hhead hs => by simpa using hopens.text_ne hhead hs
  unfold atFunctionPointer
  refine reads_bind (reads_textPair hl) ?_
  dsimp only
  cases hdefault : l.text == "default" with
  | true =>
    have hnext := hnext.resolve_left fun hne => hne (beq_iff_eq.1 hdefault)
    refine reads_if rfl (reads_pure_of_eq ?_)
    simp only [List.mem_cons, List.not_mem_nil, or_false] at hnext
    rcases hnext with hnext | hnext <;> rw [hnext] <;> decide
  | false =>
    have hnone : ∀ s ∈ functionModifiers, s ≠ "default" → isHead s = false ∧ s ∉ typeOpenings := by
      decide
    have hmodifiers : l.text ∉ functionModifiers := fun hmem =>
      have hboth := hnone _ hmem (beq_eq_false_iff_ne.1 hdefault)
      hopens.text_ne hboth.1 hboth.2 rfl
    refine reads_if_not (by decide) (reads_pure_of_eq ?_)
    simp [hne "fn" (by decide) (by decide), hne "extern" (by decide) (by decide), hmodifiers]

/-- Nor behind a sign that a type begins with. -/
theorem reads_atFunctionPointer_sign {c : Char} (hl : visible ls = sign space c :: r)
    (hc : String.singleton c ∈ typeOpenings) : Reads N atFunctionPointer ls false ls := by
  refine reads_atFunctionPointer hl (opens_sign hc) (.inl ?_)
  rw [text_sign]
  exact ne_of_mem_typeOpenings hc (by decide)

theorem reads_type (ht : t.IsReadable) (hstops : Stops ls) (hbare : Reads N (bareType n) (typeLexemes space t ++ ls) t ls) :
    Reads N (type (n + 1)) (typeLexemes space t ++ ls) t ls := by
  obtain ⟨l, r, hl, hopens⟩ := exists_visible ht space ls
  obtain ⟨k, q, hk, hstop⟩ := hstops
  unfold type
  refine reads_get fun start _ _ => ?_
  refine reads_bind (reads_take?_of_ne hl (hopens.kind_ne (by decide) (by decide))) ?_
  refine reads_if_not (by decide) (reads_bind hbare (reads_bind (reads_text hk) ?_))
  exact reads_if_not (by simpa using ne_of_mem_typeStops hstop (by decide)) reads_pure

/-- The number of lexemes of a type. -/
def lexemeCount (t : TypeExpr) : Nat := (typeLexemes [] t).length

theorem length_typeLexemes (space : List Char) (t : TypeExpr) :
    (typeLexemes space t).length = lexemeCount t := by
  cases t with
  | path segments args => cases segments <;> simp [lexemeCount, typeLexemes, pathLexemes]
  | _ => simp [lexemeCount, typeLexemes]

theorem length_le_furtherLexemes (ts : List TypeExpr) : ts.length ≤ (furtherLexemes ts).length := by
  induction ts with
  | nil => simp
  | cons t r ih =>
    rw [furtherLexemes]
    simp only [List.length_cons, List.length_append]
    omega

theorem length_le_listLexemes (ts : List TypeExpr) : ts.length ≤ (listLexemes ts).length + 1 := by
  cases ts with
  | nil => simp
  | cons t r =>
    have hr := length_le_furtherLexemes r
    rw [listLexemes, List.length_append, List.length_cons]
    omega

theorem lexemeCount_le_of_mem {ts : List TypeExpr} {u : TypeExpr} (hu : u ∈ ts) :
    lexemeCount u ≤ (listLexemes ts).length := by
  have hfurther : ∀ ts : List TypeExpr, ∀ u ∈ ts, lexemeCount u ≤ (furtherLexemes ts).length := by
    intro ts
    induction ts with
    | nil => simp
    | cons t r ih =>
      rw [furtherLexemes]
      simp only [List.length_cons, List.length_append, length_typeLexemes, List.forall_mem_cons]
      exact ⟨by omega, fun u hu => by have := ih u hu; omega⟩
  cases ts with
  | nil => exact absurd hu List.not_mem_nil
  | cons t r =>
    rw [listLexemes, List.length_append, length_typeLexemes]
    rcases List.mem_cons.1 hu with rfl | hu
    · omega
    · have := hfurther r u hu
      omega

/-- **A type is read back** where there is fuel for its lexemes; a path is read with its form. -/
structure ReadsBack (N : Nat) (t : TypeExpr) : Prop where
  bareType : ∀ {n : Nat}, 8 * lexemeCount t ≤ n → ∀ space {ls}, Stops ls →
    Reads N (bareType n) (typeLexemes space t ++ ls) t ls
  path : ∀ {segments args}, t = .path segments args → ∀ {n : Nat}, 8 * lexemeCount t ≤ n + 2 →
    ∀ space {ls}, Stops ls → ∃ form : PathForm,
      (isBoundable (.path segments args) = true → form.isBound = true) ∧
      Reads N (Reader.path n) (typeLexemes space t ++ ls) (form, t) ls

/-- A type that is no path is read back without a form. -/
theorem ReadsBack.of_bareType {N : Nat} {t : TypeExpr} (hne : ∀ segments args, t ≠ .path segments args)
    (h : ∀ {n : Nat}, 8 * lexemeCount t ≤ n → ∀ space {ls}, Stops ls →
      Reads N (Reader.bareType n) (typeLexemes space t ++ ls) t ls) : ReadsBack N t where
  bareType := h
  path := fun heq => absurd heq (hne _ _)

/-! ## Lists of types -/

/-- **A sign that closes a list of types.** -/
structure Closes (close : Char) : Prop where
  stop : String.singleton close ∈ typeStops
  head : isHead (String.singleton close) = false
  opening : String.singleton close ∉ typeOpenings
  comma : String.singleton close ≠ ","

theorem closes_parenthesis : Closes ')' := ⟨by decide, by decide, by decide, by decide⟩

theorem closes_angle : Closes '>' := ⟨by decide, by decide, by decide, by decide⟩

/-- A comma or the closing sign is ahead. -/
def EndsEntry (close : Char) (ls : List Lexeme) : Prop :=
  ∃ l r, visible ls = l :: r ∧ (l.text = "," ∨ l.text = String.singleton close)

section Lists

variable {α : Type} {entry : Reader α} {close : Char} {g : TypeExpr → α} {ts : List TypeExpr}

theorem EndsEntry.stops (h : EndsEntry close ls) (hclose : Closes close) : Stops ls := by
  obtain ⟨l, r, hl, htext | htext⟩ := h
  · exact ⟨l, r, hl, htext ▸ by decide⟩
  · exact ⟨l, r, hl, htext ▸ hclose.stop⟩

theorem endsEntry_further (ts : List TypeExpr) (ls : List Lexeme) :
    EndsEntry close (furtherLexemes ts ++ sign [] close :: ls) := by
  cases ts with
  | nil => rw [furtherLexemes]; exact ⟨_, _, rfl, .inr rfl⟩
  | cons t r => rw [furtherLexemes]; exact ⟨_, _, rfl, .inl rfl⟩

/-- A list goes on behind its first entry. -/
theorem reads_entries_first (hclose : Closes close) (ht : t.IsReadable) {a : α} {as : List α}
    {ls' : List Lexeme} (hfirst : Reads N entry (typeLexemes space t ++ ls) a ls)
    (hrest : Reads N (do
      if ← optional "," then
        let others ← entries (String.singleton close) entry n
        return a :: others
      else return [a]) ls as ls') :
    Reads N (entries (String.singleton close) entry (n + 1)) (typeLexemes space t ++ ls) as ls' := by
  obtain ⟨l, r, hl, hopens⟩ := exists_visible ht space ls
  unfold entries
  refine reads_bind (reads_closes hl) (reads_if_not ?_ (reads_bind hfirst hrest))
  simpa using hopens.text_ne hclose.head hclose.opening

/-- **Entries with commas between them** are read up to the closing sign. -/
theorem reads_entries (hclose : Closes close) (hts : ∀ u ∈ t :: ts, u.IsReadable)
    (hentry : ∀ u ∈ t :: ts, ∀ space ls, EndsEntry close ls →
      Reads N entry (typeLexemes space u ++ ls) (g u) ls) (hn : ts.length < n) :
    Reads N (entries (String.singleton close) entry n)
      (typeLexemes space t ++ (furtherLexemes ts ++ sign [] close :: ls)) ((t :: ts).map g)
      (sign [] close :: ls) := by
  induction ts generalizing t n space with
  | nil =>
    obtain ⟨n, rfl⟩ := Nat.exists_eq_add_one_of_ne_zero (Nat.ne_zero_of_lt hn)
    refine reads_entries_first hclose (hts t List.mem_cons_self)
      (hentry t List.mem_cons_self _ _ (endsEntry_further [] ls)) ?_
    rw [furtherLexemes]
    exact reads_bind (reads_optional_of_ne rfl hclose.comma) (reads_if_not (by decide) reads_pure)
  | cons u ts ih =>
    obtain ⟨n, rfl⟩ := Nat.exists_eq_add_one_of_ne_zero (Nat.ne_zero_of_lt hn)
    have hrest := fun space => @ih n space u (fun v hv => hts v (List.mem_cons_of_mem _ hv))
      (fun v hv => hentry v (List.mem_cons_of_mem _ hv)) (Nat.lt_of_succ_lt_succ hn)
    refine reads_entries_first hclose (hts t List.mem_cons_self)
      (hentry t List.mem_cons_self _ _ (endsEntry_further (u :: ts) ls)) ?_
    rw [furtherLexemes, List.cons_append, List.append_assoc]
    exact reads_bind (reads_optional rfl rfl) (reads_if rfl (reads_bind (hrest _) reads_pure))

/-- A list of at least one entry is read with its closing sign. -/
theorem reads_list1 (hclose : Closes close) (hts : ∀ u ∈ t :: ts, u.IsReadable)
    (hentry : ∀ u ∈ t :: ts, ∀ space ls, EndsEntry close ls →
      Reads N entry (typeLexemes space u ++ ls) (g u) ls) (hn : ts.length < n) :
    Reads N (list1 (String.singleton close) n entry)
      (listLexemes (t :: ts) ++ sign [] close :: ls) ((t :: ts).map g) ls := by
  rw [listLexemes, List.append_assoc]
  unfold list1
  exact reads_bind (reads_entries hclose hts hentry hn)
    (reads_bind (reads_expect rfl rfl) reads_pure)

/-- A list of one entry may have a comma behind it. -/
theorem reads_list1_comma (hclose : Closes close) (ht : t.IsReadable)
    (hentry : ∀ space ls, EndsEntry close ls → Reads N entry (typeLexemes space t ++ ls) (g t) ls)
    (hn : 1 < n) :
    Reads N (list1 (String.singleton close) n entry)
      (listLexemes [t] ++ sign [] ',' :: sign [] close :: ls) [g t] ls := by
  obtain ⟨n, rfl⟩ : ∃ k, n = k + 2 := Nat.exists_eq_add_of_le' hn
  have hend : Reads N (entries (String.singleton close) entry (n + 1)) (sign [] close :: ls) []
      (sign [] close :: ls) := by
    unfold entries
    exact reads_bind (reads_closes rfl) (reads_if (by simp) reads_pure)
  have hentries : Reads N (entries (String.singleton close) entry (n + 2))
      (typeLexemes [] t ++ sign [] ',' :: sign [] close :: ls) [g t] (sign [] close :: ls) :=
    reads_entries_first hclose ht (hentry _ _ ⟨_, _, rfl, .inl rfl⟩)
      (reads_bind (reads_optional rfl rfl) (reads_if rfl (reads_bind hend reads_pure)))
  rw [listLexemes, furtherLexemes, List.append_nil]
  unfold list1
  exact reads_bind hentries (reads_bind (reads_expect rfl rfl) reads_pure)

/-- A structured type is an argument by itself. -/
theorem reads_typeArgument (ht : t.IsReadable) (hends : EndsEntry '>' ls)
    (htype : Reads N (type n) (typeLexemes space t ++ ls) t ls) :
    Reads N (typeArgument (n + 1)) (typeLexemes space t ++ ls) [t] ls := by
  obtain ⟨l, r, hl, hopens⟩ := exists_visible ht space ls
  obtain ⟨k, q, hk, hnext⟩ := hends
  have hne : ∀ s : String, "," ≠ s → ">" ≠ s → (k.text == s) = false := by
    intro s hcomma hangle
    rcases hnext with htext | htext <;> rw [htext] <;> simpa
  have hl' : ∀ s, isHead s = false → s ∉ typeOpenings → (l.text == s) = false :=
    fun s hhead hs => by simpa using hopens.text_ne hhead hs
  have hkind : ∀ kind, kind ≠ .word → kind ≠ .punctuation → some l.kind ≠ some kind :=
    fun kind hword hsign h => hopens.kind_ne hword hsign (Option.some.inj h)
  unfold typeArgument
  refine reads_get fun start _ _ => reads_bind (reads_text hl) (reads_bind (reads_kind? hl) ?_)
  refine reads_if_not (hkind _ (by decide) (by decide)) (reads_if_not ?_ (reads_if_not ?_ ?_))
  · simp [hkind, hl' "true" (by decide) (by decide), hl' "false" (by decide) (by decide)]
  · simp [hl' openBrace (by decide) (by decide)]
  refine reads_bind htype (reads_bind (reads_text hk) ?_)
  rw [hne "=" (by decide) (by decide)]
  split
  · contradiction
  · contradiction
  · refine reads_bind reads_pure (reads_get fun behind _ _ => reads_bind (reads_text hk) ?_)
    exact reads_if_not (by simp [hne ":" (by decide) (by decide)]) reads_pure

end Lists

/-! ## The law -/

theorem lexemeCount_pos (ht : t.IsReadable) : 0 < lexemeCount t := by
  obtain ⟨l, r, hl, -⟩ := exists_opens ht []
  simp [lexemeCount, hl]

/-- A type that is read back is read by the reader for any type. -/
theorem ReadsBack.type (h : ReadsBack N t) (ht : t.IsReadable)
    (hn : 8 * lexemeCount t ≤ n) (hstops : Stops ls) :
    Reads N (Reader.type (n + 1)) (typeLexemes space t ++ ls) t ls :=
  reads_type ht hstops (h.bareType hn _ hstops)

/-- The arguments of a path are read back. -/
theorem reads_typeArguments {args : List TypeExpr} (hargs : ∀ u ∈ args, ReadsBack N u)
    (hall : ∀ u ∈ args, u.IsReadable) (hne : args ≠ [])
    (hn : 8 * (listLexemes args).length + 4 ≤ n) :
    Reads N (typeArguments n) (sign [] '<' :: (listLexemes args ++ sign [] '>' :: ls)) args ls := by
  obtain ⟨u, us, rfl⟩ := List.exists_cons_of_ne_nil hne
  obtain ⟨n, rfl⟩ : ∃ k, n = k + 3 := Nat.exists_eq_add_of_le' (by omega)
  have hlength := length_le_listLexemes (u :: us)
  have hentry : ∀ v ∈ u :: us, ∀ space ls, EndsEntry '>' ls →
      Reads N (typeArgument (n + 2)) (typeLexemes space v ++ ls) [v] ls := by
    intro v hv space ls hends
    have hcount := lexemeCount_le_of_mem hv
    exact reads_typeArgument (hall v hv) hends
      ((hargs v hv).type (hall v hv) (by omega) (hends.stops closes_angle))
  have hlist : Reads N (list1 ">" (n + 2) (typeArgument (n + 2)))
      (listLexemes (u :: us) ++ sign [] '>' :: ls) ((u :: us).map fun v => [v]) ls :=
    reads_list1 closes_angle hall hentry (by simp only [List.length_cons] at hlength; omega)
  unfold typeArguments
  refine reads_bind (reads_expect rfl rfl) (reads_bind hlist (reads_pure_of_eq ?_))
  simp [List.flatten_eq_flatMap, List.flatMap_map]

theorem length_pathLexemes (space : List Char) {segments : List String} (h : segments ≠ []) :
    (pathLexemes space segments).length + 1 = 2 * segments.length := by
  obtain ⟨first, r, rfl⟩ := List.exists_cons_of_ne_nil h
  have hlength : ∀ r, (segmentLexemes r).length = 2 * r.length := by
    intro r
    induction r with
    | nil => rfl
    | cons s r ih => simp only [segmentLexemes, List.length_cons, ih]; omega
  simp only [pathLexemes, List.length_cons, hlength]
  omega

theorem isBound_of_isPlain {form : PathForm} (h : form.isPlain = true) : form.isBound = true := by
  cases form <;> first | rfl | exact absurd h (by decide)

/-- A path with its arguments is read back. -/
theorem exists_reads_path (space : List Char) {segments : List String} {args : List TypeExpr}
    (hargs : ∀ u ∈ args, ReadsBack N u) (h : IsReadable (.path segments args))
    (hn : 8 * lexemeCount (.path segments args) ≤ n + 2) (hstops : Stops ls) :
    ∃ form : PathForm, (isBoundable (.path segments args) = true → form.isBound = true) ∧
      Reads N (path n) (typeLexemes space (.path segments args) ++ ls) (form, .path segments args) ls := by
  obtain ⟨hpath, hform, hall⟩ := h
  have hlength := length_pathLexemes [] (ne_nil_of_isWordPath hpath)
  rw [lexemeCount, typeLexemes, List.length_append] at hn
  cases args with
  | nil =>
    obtain ⟨n, rfl⟩ : ∃ k, n = k + 1 + segments.length :=
      ⟨n - 1 - segments.length, by simp at hn; omega⟩
    refine ⟨pathForm segments, fun h => isBound_of_isPlain (by simpa [isBoundable] using h), ?_⟩
    rw [typeLexemes]
    simpa using reads_path_words space hpath fun start =>
      reads_pathFrom_stop (n := n) hform hstops
  | cons u us =>
    simp only [List.isEmpty_cons, Bool.false_eq_true, if_false, List.length_cons,
      List.length_append, List.length_nil] at hn hform
    obtain ⟨n, rfl⟩ : ∃ k, n = k + 2 + segments.length := ⟨n - 2 - segments.length, by omega⟩
    have harguments : Reads N (typeArguments (n + 1))
        (sign [] '<' :: (listLexemes (u :: us) ++ sign [] '>' :: ls)) (u :: us) ls :=
      reads_typeArguments hargs (allReadable_iff.1 hall) (by simp) (by omega)
    refine ⟨.generic, fun _ => rfl, ?_⟩
    rw [typeLexemes]
    simpa using reads_path_words space hpath fun start =>
      reads_pathFrom_arguments hform harguments (reads_pathFrom_stop rfl hstops)

/-- A path begins with a word that may begin one, and goes on behind a word that names nothing alone. -/
theorem exists_visible_path {segments : List String} {args : List TypeExpr}
    (h : IsReadable (.path segments args)) (space : List Char) (ls : List Lexeme) :
    ∃ l r, visible (typeLexemes space (.path segments args) ++ ls) = l :: r ∧ Opens l ∧
      l.kind = .word ∧ (∀ s, isHead s = false → l.text ≠ s) ∧
      (l.text ≠ "default" ∨ textAhead r ∈ ["::", "<"]) := by
  obtain ⟨hpath, hform, -⟩ := h
  obtain ⟨first, r, rfl⟩ := List.exists_cons_of_ne_nil (ne_nil_of_isWordPath hpath)
  have hfirst : isHead first = true := (Bool.and_eq_true_iff.1 hpath).1
  refine ⟨ofName space first, _, by rw [typeLexemes]; rfl, ⟨.inl rfl, .inl hfirst⟩, rfl, ?_, ?_⟩
  · rintro _ hs rfl
    exact absurd (hs.symm.trans hfirst) (by decide)
  · cases r with
    | cons s r => exact .inr (by rw [textAhead_of_visible rfl]; decide)
    | nil =>
      cases args with
      | cons u us => exact .inr (by rw [textAhead_of_visible rfl]; decide)
      | nil =>
        refine .inl ?_
        rintro rfl
        exact absurd hform (by decide)

/-- The bound of a trait object is read back. -/
theorem reads_objectBound (h : ReadsBack N t) (ht : t.IsReadable) (hbound : t.isBoundable = true)
    (isDyn : Bool) (hn : 8 * lexemeCount t ≤ n) (hstops : Stops ls) :
    Reads N (objectBound (n + 1) isDyn) (typeLexemes space t ++ ls) t ls := by
  cases t with
  | path segments args =>
    obtain ⟨form, hform, hpath⟩ := h.path rfl (Nat.le_add_right_of_le hn) space hstops
    obtain ⟨l, r, hl, hopens, hword, hne, hnext⟩ := exists_visible_path ht space ls
    unfold objectBound
    refine reads_get fun start _ _ => reads_bind (reads_atFunctionPointer hl hopens hnext) ?_
    refine reads_if_not (by decide) (reads_bind (reads_text hl) ?_)
    split
    · next heq => exact absurd heq (hne _ (by decide))
    · next heq => exact absurd heq (hne _ (by decide))
    · next heq => exact absurd heq (hne _ (by decide))
    · refine reads_bind (reads_kind? hl) (reads_if_not (by simp [hword]) (reads_bind hpath ?_))
      exact reads_if (hform hbound) reads_pure
  | tuple elements =>
    obtain ⟨u, us, rfl⟩ : ∃ u us, elements = u :: us := by
      cases elements with
      | nil => simp [isBoundable] at hbound
      | cons u us => exact ⟨u, us, rfl⟩
    have hbare := h.bareType hn space hstops
    rw [typeLexemes] at hbare ⊢
    unfold objectBound
    refine reads_get fun start _ _ => reads_bind (reads_atFunctionPointer_sign rfl (by decide)) ?_
    refine reads_if_not (by decide) (reads_bind (reads_text rfl) ?_)
    cases isDyn with
    | false => exact reads_bind hbare reads_pure
    | true => exact reads_bind hbare reads_pure
  | _ => simp [isBoundable] at hbound

/-- A path is read back as a type. -/
theorem reads_bareType_path {segments : List String} {args : List TypeExpr} {form : PathForm}
    (h : IsReadable (.path segments args))
    (hpath : Reads N (path n) (typeLexemes space (.path segments args) ++ ls)
      (form, .path segments args) ls) :
    Reads N (bareType (n + 1)) (typeLexemes space (.path segments args) ++ ls) (.path segments args)
      ls := by
  obtain ⟨l, r, hl, hopens, -, hne, hnext⟩ := exists_visible_path h space ls
  unfold bareType
  refine reads_get fun start _ _ => reads_bind (reads_atFunctionPointer hl hopens hnext) ?_
  refine reads_if_not (by decide) (reads_bind (reads_text hl) ?_)
  split
  case h_10 => exact reads_bind hpath reads_pure
  all_goals next heq => exact absurd heq (hne _ (by decide))

/-- The name of a lifetime is its text without the sign before it. -/
theorem ofList_lifetime {name : String} (h : isLifetimeName name = true) :
    String.ofList ((Lexeme.lifetime space name).text.toList.dropWhile (· == '\'')) = name := by
  have htext : (Lexeme.lifetime space name).text.toList = '\'' :: name.toList := String.toList_ofList
  unfold isLifetimeName at h
  split at h
  · exact absurd h (by decide)
  · next c r hcr =>
    have hc : c ≠ '\'' := by
      rintro rfl
      exact absurd (Bool.and_eq_true_iff.1 h).1 (by decide)
    rw [htext, hcr, List.dropWhile_cons_of_pos (by decide), List.dropWhile_cons_of_neg (by simpa using hc),
      ← hcr, String.ofList_toList]

/-- The sign of a reference with its marks is read. -/
theorem reads_bareType_reference {lifetime : Option String} {mutable : Bool}
    (hlifetime : lifetime.all isLifetimeName = true) (ht : t.IsReadable)
    (hinner : Reads N (bareType n) (typeLexemes (markLexemes lifetime mutable).2 t ++ ls) t ls) :
    Reads N (bareType (n + 1)) (typeLexemes space (.reference lifetime mutable t) ++ ls)
      (.reference lifetime mutable t) ls := by
  obtain ⟨l, r, hl, hopens⟩ := exists_visible ht (markLexemes lifetime mutable).2 ls
  have hlone : Reads N (take? .lifetime) (typeLexemes (markLexemes lifetime mutable).2 t ++ ls) none _ :=
    reads_take?_of_ne hl (hopens.kind_ne (by decide) (by decide))
  have hfixed : Reads N (optional "mut") (typeLexemes (markLexemes lifetime mutable).2 t ++ ls) false _ :=
    reads_optional_of_ne hl (hopens.text_ne (by decide) (by decide))
  rw [typeLexemes, List.cons_append, List.append_assoc]
  unfold bareType
  refine reads_get fun start _ _ => reads_bind (reads_atFunctionPointer_sign rfl (by decide)) ?_
  refine reads_if_not (by decide) (reads_bind (reads_text rfl) (reads_bind (reads_skip rfl) ?_))
  cases lifetime with
  | none =>
    cases mutable with
    | false => exact reads_bind hlone (reads_bind hfixed (reads_bind hinner reads_pure))
    | true =>
      exact reads_bind (reads_take?_of_ne rfl (by decide)) (reads_bind (reads_optional rfl rfl)
        (reads_bind hinner reads_pure))
  | some name =>
    have htake : ∀ ls, Reads N (take? .lifetime) (Lexeme.lifetime [] name :: ls)
        (some (Lexeme.lifetime [] name).text) ls := fun ls => reads_take? rfl rfl
    have hmut : ∀ ls, Reads N (optional "mut") (ofName [' '] "mut" :: ls) true ls :=
      fun ls => reads_optional rfl rfl
    have hresult : ∀ mutable, (Ty.reference ((some (Lexeme.lifetime [] name).text).map fun l =>
        String.ofList (l.toList.dropWhile (· == '\''))) mutable t : TypeExpr) =
        .reference (some name) mutable t := by
      intro mutable
      rw [Option.map_some, ofList_lifetime hlifetime]
    cases mutable with
    | false =>
      exact reads_bind (htake _) (reads_bind hfixed (reads_bind hinner
        (reads_pure_of_eq (hresult _))))
    | true =>
      exact reads_bind (htake _) (reads_bind (hmut _) (reads_bind hinner
        (reads_pure_of_eq (hresult _))))

/-- A slice is read, given its element. -/
theorem reads_bareType_slice (helement : Reads N (type n) (typeLexemes [] t ++ sign [] ']' :: ls) t
      (sign [] ']' :: ls)) :
    Reads N (bareType (n + 1)) (typeLexemes space (.slice t) ++ ls) (.slice t) ls := by
  rw [typeLexemes, List.cons_append, List.append_assoc]
  unfold bareType
  refine reads_get fun start _ _ => reads_bind (reads_atFunctionPointer_sign rfl (by decide)) ?_
  refine reads_if_not (by decide) (reads_bind (reads_text rfl) (reads_bind (reads_skip rfl) ?_))
  refine reads_bind helement (reads_bind (reads_optional_of_ne rfl (by rw [text_sign]; decide)) ?_)
  exact reads_if_not (by decide) (reads_bind (reads_expect rfl rfl) reads_pure)

/-- An array is read, given its element. -/
theorem reads_bareType_array {length : String} (hlength : IsLength length)
    (helement : ∀ ls, Reads N (type n) (typeLexemes [] t ++ sign [] ';' :: ls) t (sign [] ';' :: ls))
    (hn : (lengthLexemes length).length < n) :
    Reads N (bareType (n + 1)) (typeLexemes space (.array t length) ++ ls) (.array t length) ls := by
  have hskip : Reads N (skipUntil [] n) (lengthLexemes length ++ sign [] ']' :: ls) true
      (sign [] ']' :: ls) := by
    have hmoved : (!(lengthLexemes length).isEmpty) = true := by simp [hlength.ne_nil]
    exact hmoved ▸ reads_skipUntil hlength.passes (l := sign [] ']') rfl rfl hn ls
  have hall : typeLexemes space (.array t length) ++ ls = sign space '[' ::
      (typeLexemes [] t ++ sign [] ';' :: (lengthLexemes length ++ sign [] ']' :: ls)) := by
    simp [typeLexemes]
  rw [hall]
  unfold bareType
  refine reads_get fun start _ _ => reads_bind (reads_atFunctionPointer_sign rfl (by decide)) ?_
  refine reads_if_not (by decide) (reads_bind (reads_text rfl) (reads_bind (reads_skip rfl) ?_))
  refine reads_bind (helement _) (reads_bind (reads_optional rfl rfl) (reads_if rfl ?_))
  refine reads_get fun before hN hbefore => reads_bind hskip ?_
  have hsince := reads_since hN hbefore
  refine reads_if_not (by decide) (reads_bind (reads_bind hsince reads_pure) ?_)
  refine reads_bind (reads_expect rfl rfl) (reads_pure_of_eq ?_)
  rw [hlength.spanned, String.ofList_toList, hlength.trimmed]

/-- A tuple is read, given its elements. -/
theorem reads_bareType_tuple {ts : List TypeExpr} (hts : ∀ u ∈ ts, u.IsReadable)
    (hentry : ∀ u ∈ ts, ∀ space ls, EndsEntry ')' ls →
      Reads N (type n) (typeLexemes space u ++ ls) u ls) (hn : ts.length < n) (htwo : 1 < n) :
    Reads N (bareType (n + 1)) (typeLexemes space (.tuple ts) ++ ls) (.tuple ts) ls := by
  rw [typeLexemes, List.cons_append, List.append_assoc]
  unfold bareType
  refine reads_get fun start _ _ => reads_bind (reads_atFunctionPointer_sign rfl (by decide)) ?_
  refine reads_if_not (by decide) (reads_bind (reads_text rfl) (reads_bind (reads_skip rfl) ?_))
  cases ts with
  | nil =>
    rw [listLexemes]
    exact reads_bind (reads_optional rfl rfl) (reads_if rfl reads_pure)
  | cons u us =>
    have hlist : ∀ tail, tail = (if (u :: us).length = 1 then [sign [] ','] else []) ++ [sign [] ')'] →
        Reads N (list1 ")" n (type n)) (listLexemes (u :: us) ++ (tail ++ ls)) (u :: us) ls := by
      rintro _ rfl
      cases us with
      | nil =>
        exact reads_list1_comma (g := id) closes_parenthesis (hts u List.mem_cons_self)
          (hentry u List.mem_cons_self) htwo
      | cons v vs =>
        have hseveral : Reads N (list1 ")" n (type n))
            (listLexemes (u :: v :: vs) ++ sign [] ')' :: ls) ((u :: v :: vs).map id) ls :=
          reads_list1 closes_parenthesis hts hentry (Nat.lt_of_succ_lt hn)
        rw [List.map_id] at hseveral
        rw [if_neg (by simp)]
        exact hseveral
    obtain ⟨l, r, hl, hfirst⟩ := exists_visible (hts u List.mem_cons_self) [] (furtherLexemes us ++
      ((if (u :: us).length = 1 then [sign [] ','] else []) ++ [sign [] ')'] ++ ls))
    rw [← List.append_assoc, ← listLexemes] at hl
    refine reads_bind (reads_optional_of_ne hl (hfirst.text_ne (by decide) (by decide))) ?_
    exact reads_if_not (by decide) (reads_bind (hlist _ rfl) reads_pure)

/-- A trait object is read, given its bound. -/
theorem reads_bareType_traitObject {keyword : String} (hkeyword : keyword = "dyn" ∨ keyword = "impl")
    (ht : t.IsReadable)
    (hbound : ∀ isDyn, Reads N (objectBound n isDyn) (typeLexemes [' '] t ++ ls) t ls) :
    Reads N (bareType (n + 1)) (typeLexemes space (.traitObject keyword t) ++ ls)
      (.traitObject keyword t) ls := by
  have hopens : Opens (ofName space keyword) :=
    ⟨.inl rfl, .inr (by rw [text_ofName]; rcases hkeyword with rfl | rfl <;> decide)⟩
  obtain ⟨l, r, hl, hfirst⟩ := exists_visible ht [' '] ls
  have hlifted : Reads N (optional "for") (typeLexemes [' '] t ++ ls) false _ :=
    reads_optional_of_ne hl (hfirst.text_ne (by decide) (by decide))
  have hdefault : keyword ≠ "default" := by rcases hkeyword with rfl | rfl <;> decide
  rw [typeLexemes, List.cons_append]
  unfold bareType
  refine reads_get fun start _ _ => reads_bind (reads_atFunctionPointer rfl hopens (.inl hdefault)) ?_
  refine reads_if_not (by decide) (reads_bind (reads_text rfl) ?_)
  rcases hkeyword with rfl | rfl
  · exact reads_bind (reads_skip rfl) (reads_bind (hbound true) reads_pure)
  · refine reads_bind (reads_skip rfl) (reads_bind hlifted (reads_if_not (by decide) ?_))
    exact reads_bind (hbound false) reads_pure

/-- **Every readable type is read back.** -/
theorem readsBack (h : t.IsReadable) : ReadsBack N t := by
  induction t using Ty.partsInduction with
  | path segments args ih =>
    have hargs : ∀ u ∈ args, ReadsBack N u := fun u hu => ih u hu (allReadable_iff.1 h.2.2 u hu)
    refine ⟨fun {n} hn space ls hstops => ?_, fun heq n hn space ls hstops => ?_⟩
    · have hcount := lexemeCount_pos h
      obtain ⟨n, rfl⟩ : ∃ k, n = k + 1 := ⟨n - 1, by omega⟩
      obtain ⟨form, -, hpath⟩ :=
        @exists_reads_path N n ls space segments args hargs h (by omega) hstops
      exact reads_bareType_path h hpath
    · obtain ⟨rfl, rfl⟩ := Ty.path.inj heq
      exact exists_reads_path space hargs h hn hstops
  | reference lifetime mutable inner ih =>
    refine .of_bareType (by simp) fun {n} hn space ls hstops => ?_
    rw [lexemeCount, typeLexemes, List.length_cons, List.length_append, length_typeLexemes] at hn
    obtain ⟨n, rfl⟩ : ∃ k, n = k + 1 := ⟨n - 1, by omega⟩
    exact reads_bareType_reference h.1 h.2 ((ih h.2).bareType (by omega) _ hstops)
  | slice element ih =>
    rw [IsReadable] at h
    refine .of_bareType (by simp) fun {n} hn space ls hstops => ?_
    rw [lexemeCount, typeLexemes, List.length_cons, List.length_append, length_typeLexemes] at hn
    obtain ⟨n, rfl⟩ : ∃ k, n = k + 2 := ⟨n - 2, by omega⟩
    exact reads_bareType_slice ((ih h).type h (by omega) (stops_sign (by decide) _))
  | array element length ih =>
    refine .of_bareType (by simp) fun {n} hn space ls hstops => ?_
    rw [lexemeCount, typeLexemes, List.length_cons, List.length_append, length_typeLexemes,
      List.length_cons, List.length_append] at hn
    obtain ⟨n, rfl⟩ : ∃ k, n = k + 2 := ⟨n - 2, by omega⟩
    exact reads_bareType_array h.2 (fun ls =>
      (ih h.1).type h.1 (by omega) (stops_sign (by decide) _)) (by omega)
  | tuple elements ih =>
    have hall := allReadable_iff.1 h
    have hlength := length_le_listLexemes elements
    refine .of_bareType (by simp) fun {n} hn space ls hstops => ?_
    rw [lexemeCount, typeLexemes, List.length_cons, List.length_append] at hn
    obtain ⟨n, rfl⟩ : ∃ k, n = k + 3 := ⟨n - 3, by omega⟩
    refine reads_bareType_tuple hall (fun u hu space ls hends => ?_) (by omega) (by omega)
    have hcount := lexemeCount_le_of_mem hu
    exact (ih u hu (hall u hu)).type (hall u hu) (by omega) (hends.stops closes_parenthesis)
  | traitObject keyword bound ih =>
    obtain ⟨hkeyword, hbound, ht⟩ := h
    refine .of_bareType (by simp) fun {n} hn space ls hstops => ?_
    rw [lexemeCount, typeLexemes, List.length_cons, length_typeLexemes] at hn
    obtain ⟨n, rfl⟩ : ∃ k, n = k + 2 := ⟨n - 2, by omega⟩
    exact reads_bareType_traitObject hkeyword ht fun isDyn =>
      reads_objectBound (ih ht) ht hbound isDyn (by omega) hstops
  | verbatim text => exact h.elim

end Types

end ModelPool.Source
