import ModelPool.Proofs.Source.Yielding

/-!
# Proofs/Source/Passing — passing over tokens and groups

A reader that passes over tokens looks at their kinds and texts, and it stops at the first bracket that
closes nothing.  What it has passed over is a run of tokens and groups, and it passes over the same run again
wherever such a bracket stands behind it.

* `Passes` — such a run.
* `yields_skipUntil` — what has been passed over is one.
* `reads_skipUntil` — and is passed over again.
-/

namespace ModelPool.Source

open Lexeme

/-! ## Forms -/

/-- What a reader sees of a lexeme. -/
abbrev Form := TokenKind × String

/-- The form of a lexeme. -/
def Lexeme.form (l : Lexeme) : Form := (l.kind, l.text)

/-- The form of a token. -/
def Token.form (t : Token) : Form := t.bare.form

/-- The form may stand in a group, where no lone apostrophe may. -/
def fitsGroup (f : Form) : Prop := f.1 ≠ .stray ∧ f.1 ≠ .shebang ∧ f.1 ≠ .quote

theorem Token.fitsGroup_iff {t : Token} : t.fitsGroup false = true ↔ Source.fitsGroup t.form := by
  have hkind : t.form.1 = t.kind := rfl
  rw [Source.fitsGroup, hkind, Token.fitsGroup]
  cases t.kind <;> simp

/-! ## Groups -/

/-- **A group**: it begins with an opening bracket, and its end is told by itself. -/
structure IsGroup (g : List Form) : Prop where
  fits : ∀ f ∈ g, fitsGroup f
  first : ∃ f r, g = f :: r ∧ f.1 ≠ .comment ∧ (closingBracket? f.2).isSome = true
  last : ∃ f, g.getLast? = some f ∧ isClosingBracket f.2 = true
  length : ∀ ts : List Token, (ts.map Token.form).take g.length = g →
    groupLength false [] ts = some g.length

section Groups

variable {quotes : Bool} {pending : List String} {ts us : List Token} {n : Nat}

theorem exists_cons_of_take {t : Token} {r : List Form} {k : Nat}
    (h : (us.map Token.form).take (k + 1) = t.form :: r) :
    ∃ u vs, us = u :: vs ∧ u.kind = t.kind ∧ u.text = t.text ∧ (vs.map Token.form).take k = r := by
  cases us with
  | nil => simp at h
  | cons u vs =>
    obtain ⟨hform, hrest⟩ := List.cons.inj h
    exact ⟨u, vs, rfl, congrArg Prod.fst hform, congrArg Prod.snd hform, hrest⟩

theorem fitsGroup_congr {t u : Token} (h : u.kind = t.kind) : u.fitsGroup quotes = t.fitsGroup quotes := by
  rw [Token.fitsGroup, Token.fitsGroup, h]

/-- **Where the open groups end**, as told by the forms up to there. -/
structure EndsGroup (quotes : Bool) (pending : List String) (ts : List Token) (n : Nat) : Prop where
  le : n ≤ ts.length
  fits : ∀ t ∈ ts.take n, t.fitsGroup quotes = true
  last : ∃ t, (ts.take n).getLast? = some t ∧ isClosingBracket t.text = true
  again : ∀ us : List Token, (us.map Token.form).take n = (ts.map Token.form).take n →
    groupLength quotes pending us = some n

/-- Groups end where those behind the first token end. -/
theorem EndsGroup.cons {inner : List String} {t : Token} (ht : t.fitsGroup quotes = true)
    (h : EndsGroup quotes inner ts n)
    (hstep : ∀ u us, u.fitsGroup quotes = true → u.text = t.text → groupLength quotes inner us = some n →
      groupLength quotes pending (u :: us) = some (n + 1)) :
    EndsGroup quotes pending (t :: ts) (n + 1) where
  le := Nat.succ_le_succ h.le
  fits := List.forall_mem_cons.2 ⟨ht, h.fits⟩
  last := by
    obtain ⟨u, hu, hclosing⟩ := h.last
    exact ⟨u, by rw [List.take_succ_cons, List.getLast?_cons, hu]; rfl, hclosing⟩
  again us hus := by
    obtain ⟨u, vs, rfl, hkind, htext, hrest⟩ := exists_cons_of_take hus
    exact hstep u vs (fitsGroup_congr hkind ▸ ht) htext (h.again vs hrest)

theorem endsGroup (h : groupLength quotes pending ts = some n) : EndsGroup quotes pending ts n := by
  fun_induction groupLength quotes pending ts generalizing n with
  | case3 pending t r hfits sign hsign ih =>
    obtain ⟨k, hk, rfl⟩ := Option.map_eq_some_iff.1 h
    exact .cons (by simpa using hfits) (ih hk) fun u us hu htext hus => by
      simp [groupLength, hu, htext, hsign, hus]
  | case5 t r hfits hopen hclose sign hsign =>
    obtain rfl := Option.some.inj h
    refine ⟨by simp, by simpa using hfits, ⟨t, rfl, hclose⟩, fun us hus => ?_⟩
    obtain ⟨u, vs, rfl, hkind, htext, -⟩ := exists_cons_of_take hus
    have hu : u.fitsGroup quotes = true := by simpa [fitsGroup_congr hkind] using hfits
    have hend : (sign == u.text) = true := htext ▸ hsign
    simp_all [groupLength]
  | case7 t r hfits hopen hclose sign outer hne hsign ih =>
    obtain ⟨k, hk, rfl⟩ := Option.map_eq_some_iff.1 h
    exact .cons (by simpa using hfits) (ih hk) fun u us hu htext hus => by
      simp_all [groupLength]
  | case9 pending t r hfits hopen hclose ih =>
    obtain ⟨k, hk, rfl⟩ := Option.map_eq_some_iff.1 h
    exact .cons (by simpa using hfits) (ih hk) fun u us hu htext hus => by
      simp_all [groupLength]
  | _ => exact absurd h (by simp)

end Groups

/-! ## Runs -/

/-- **A run that is passed over**: tokens and groups, with comments between them. -/
inductive Passes : List Form → Prop
  | nil : Passes []
  | token {comments r : List Form} {f : Form} (hcomments : ∀ f ∈ comments, f.1 = .comment)
      (hkind : f.1 ≠ .comment) (hfits : fitsGroup f) (hopen : closingBracket? f.2 = none)
      (hclose : isClosingBracket f.2 = false) (hr : Passes r) : Passes (comments ++ f :: r)
  | group {comments g r : List Form} (hcomments : ∀ f ∈ comments, f.1 = .comment) (hg : IsGroup g)
      (hr : Passes r) : Passes (comments ++ (g ++ r))

/-- The tokens of a group make one, if its first one is an opening bracket. -/
theorem EndsGroup.isGroup {t : Token} {ts : List Token} {n : Nat} (h : EndsGroup false [] (t :: ts) n)
    (hcomment : t.isComment = false) (hopen : (closingBracket? t.text).isSome = true) :
    IsGroup (((t :: ts).take n).map Token.form) where
  fits f hf := by
    obtain ⟨u, hu, rfl⟩ := List.mem_map.1 hf
    exact Token.fitsGroup_iff.1 (h.fits u hu)
  first := by
    obtain ⟨u, hu, -⟩ := h.last
    obtain ⟨k, rfl⟩ : ∃ k, n = k + 1 := Nat.exists_eq_add_one_of_ne_zero (by rintro rfl; simp at hu)
    exact ⟨t.form, _, rfl, beq_eq_false_iff_ne.1 hcomment, hopen⟩
  last := by
    obtain ⟨u, hu, hclosing⟩ := h.last
    exact ⟨u.form, by rw [List.getLast?_map, hu]; rfl, hclosing⟩
  length us hus := by
    rw [List.length_map, List.length_take_of_le h.le] at hus ⊢
    exact h.again us (by rw [hus, List.map_take])

theorem forms_comments {comments : List Token} (h : ∀ t ∈ comments, t.isComment = true) :
    ∀ f ∈ comments.map Token.form, f.1 = .comment := by
  intro f hf
  obtain ⟨t, ht, rfl⟩ := List.mem_map.1 hf
  exact beq_iff_eq.1 (h t ht)

namespace Reader

open Cursor

/-- A group has been passed over. -/
theorem yields_group (c : Cursor) : Yields (group false) c fun _ c' => ∃ comments g,
    c.Passed (comments ++ g) c' ∧ (∀ t ∈ comments, t.isComment = true) ∧
      IsGroup (g.map Token.form) := by
  obtain ⟨comments, hpassed, hcomments, hhead⟩ := c.passed_comments
  unfold group
  refine yields_bind (yields_modify (yields_bind (yields_text (yields_bind (yields_get ?_)))))
  split
  · next sign k hopen hlength =>
    have hends := endsGroup hlength
    refine yields_modify ⟨comments, c.passComments.rest.take k, hpassed.trans ⟨?_, ?_⟩, hcomments, ?_⟩
    · exact (List.take_append_drop _ _).symm
    · rw [List.length_take_of_le hends.le]
    · rw [ahead?_of_head hhead] at hopen
      cases hrest : c.passComments.rest with
      | nil => simp [hrest, textOf, closingBracket?] at hopen
      | cons t r =>
        rw [hrest] at hhead hopen hends
        have hopen : closingBracket? t.text = some sign := hopen
        exact hends.isGroup (hhead t rfl) (by rw [hopen]; rfl)
  · exact yields_failure

/-- **What has been passed over** is a run of tokens and groups. -/
theorem yields_skipUntil (n : Nat) (c : Cursor) : Yields (skipUntil [] n) c fun moved c' => ∃ done,
    c.Passed done c' ∧ Passes (done.map Token.form) ∧ (moved = true → done ≠ []) := by
  induction n generalizing c with
  | zero => exact yields_failure
  | succ n ih =>
    unfold skipUntil
    refine yields_bind (yields_text (yields_bind (yields_atEnd (yields_if (fun _ => ?_) fun hgo => ?_))))
    · exact yields_pure ⟨[], .refl c, .nil, nofun⟩
    dsimp only
    refine yields_if (fun hopen => yields_bind ((yields_group c).imp ?_)) fun hopen =>
      yields_bind (yields_token ?_)
    · rintro - c' ⟨comments, g, hpassed, hcomments, hg⟩
      refine yields_bind ((ih c').imp ?_)
      rintro - c'' ⟨done, hpassed', hdone, -⟩
      obtain ⟨t, r, hfirst, -⟩ := hg.first
      refine yields_pure ⟨_, hpassed.trans hpassed', ?_, fun _ hnil => ?_⟩
      · rw [List.map_append, List.map_append, List.append_assoc]
        exact .group (forms_comments hcomments) hg hdone
      · simp_all
    · split
      · next t ht =>
        refine yields_if (fun hfits => yields_bind (yields_skip ?_)) fun _ => yields_bind yields_failure
        obtain ⟨comments, hpassed, hcomments, hcomment⟩ := exists_passed_forward ht
        have htext : textOf c.ahead? = t.text := by rw [ht]; rfl
        simp only [htext, Bool.or_eq_true, not_or, Bool.not_eq_true] at hgo hopen
        refine yields_bind ((ih c.forward).imp ?_)
        rintro - c'' ⟨done, hpassed', hdone, -⟩
        refine yields_pure ⟨_, hpassed.trans hpassed', ?_, by simp⟩
        rw [List.map_append, List.map_append, List.append_assoc]
        exact .token (forms_comments hcomments) (beq_eq_false_iff_ne.1 hcomment)
          (Token.fitsGroup_iff.1 hfits) (Option.isSome_eq_false_iff.1 hopen |> Option.isNone_iff_eq_none.1)
          hgo.2 hdone
      · exact yields_bind yields_failure

/-! ## Passing again -/

section Again

variable {N n k : Nat} {ls done : List Lexeme} {l : Lexeme}

theorem reads_passComments : Reads N (modify passComments) ls () (visible ls) := by
  intro c hN hc
  exact ⟨c.passComments, rfl, c.total_passComments.trans hN, c.lexemes_passComments.trans (hc ▸ rfl),
    c.errors_passComments⟩

theorem reads_skipTokens (hk : done.length = k) : Reads N (skipTokens k) (done ++ ls) () ls := by
  intro c hN hc
  subst hk
  have hrest : (c.rest.drop done.length).map Token.bare = ls := by
    have hmap : c.rest.map Token.bare = done ++ ls := hc
    rw [List.map_drop, hmap, List.drop_left]
  have hlength : c.rest.length = done.length + ls.length := by
    rw [← c.length_lexemes, hc, List.length_append]
  refine ⟨_, rfl, ?_, hrest, rfl⟩
  simp only [Cursor.total, List.length_drop] at hN ⊢
  omega

/-- A group is passed over. -/
theorem reads_isGroup {l : Lexeme} {r : List Lexeme} (hl : l.isComment = false)
    (hg : IsGroup ((l :: r).map Lexeme.form)) (hvisible : visible ls = l :: (r ++ done)) :
    Reads N (group false) ls () done := by
  obtain ⟨f, q, hcons, -, hopen⟩ := hg.first
  obtain ⟨rfl, rfl⟩ := List.cons.inj hcons
  obtain ⟨sign, hsign⟩ := Option.isSome_iff_exists.1 hopen
  have hsign : closingBracket? l.text = some sign := hsign
  unfold group
  refine reads_bind reads_passComments ?_
  rw [hvisible]
  refine reads_bind (reads_text (visible_cons hl _)) (reads_get fun c _ hc => ?_)
  have hlength : groupLength false [] c.rest = some (r.length + 1) := by
    have hforms : c.rest.map Token.form = (l :: r).map Lexeme.form ++ done.map Lexeme.form := by
      rw [← List.map_append, List.cons_append, ← hc, Cursor.lexemes, List.map_map]
      rfl
    have hend := hg.length c.rest (by rw [hforms, List.take_left])
    rwa [List.length_map, List.length_cons] at hend
  rw [hsign, hlength]
  have hdone : (l :: r).length = r.length + 1 := rfl
  exact reads_skipTokens hdone

theorem visible_append {comments : List Lexeme} (h : ∀ l ∈ comments, l.isComment = true)
    (hl : l.isComment = false) (r : List Lexeme) : visible (comments ++ l :: r) = l :: r := by
  rw [visible, List.dropWhile_append_of_pos h, List.dropWhile_cons_of_neg (by simp [hl])]

theorem isComment_of_forms (h : ∀ f ∈ ls.map Lexeme.form, f.1 = .comment) :
    ∀ l ∈ ls, l.isComment = true :=
  fun _ hl => beq_iff_eq.2 (h _ (List.mem_map_of_mem hl))

theorem isClosingBracket_of_opens {s : String} (h : (closingBracket? s).isSome = true) :
    isClosingBracket s = false := by
  unfold closingBracket? at h
  split at h <;> first | decide | simp at h

/-- **A run is passed over** up to a bracket that closes nothing. -/
theorem reads_skipUntil (h : Passes (ls.map Lexeme.form)) (hl : l.isComment = false)
    (hclosing : isClosingBracket l.text = true) (hn : ls.length < n) (r : List Lexeme) :
    Reads N (skipUntil [] n) (ls ++ l :: r) (!ls.isEmpty) (l :: r) := by
  generalize hforms : ls.map Lexeme.form = fs at h
  obtain ⟨n, rfl⟩ := Nat.exists_eq_add_one_of_ne_zero (Nat.ne_zero_of_lt hn)
  induction h generalizing ls n with
  | nil =>
    obtain rfl := List.map_eq_nil_iff.1 hforms
    unfold skipUntil
    have hvisible := visible_cons hl r
    refine reads_bind (reads_text hvisible) (reads_bind (reads_atEnd hvisible) (reads_if ?_ reads_pure))
    simp [hclosing]
  | token hcomments hkind hfits hopen hclose hr ih =>
    obtain ⟨before, behind, rfl, rfl, hcons⟩ := List.map_eq_append_iff.1 hforms
    obtain ⟨k, q, rfl, rfl, rfl⟩ := List.map_eq_cons_iff.1 hcons
    have hk : k.isComment = false := beq_eq_false_iff_ne.2 hkind
    have hopen : closingBracket? k.text = none := hopen
    have hclose : isClosingBracket k.text = false := hclose
    have hvisible := visible_append (isComment_of_forms hcomments) hk (q ++ l :: r)
    obtain ⟨n, rfl⟩ : ∃ m, n = m + 1 := ⟨n - 1, by simp at hn; omega⟩
    have hrest := ih rfl n (by simp at hn; omega)
    rw [List.append_assoc, List.cons_append]
    unfold skipUntil
    refine reads_bind (reads_text hvisible) (reads_bind (reads_atEnd hvisible) (reads_if_not ?_ ?_))
    · simpa using hclose
    refine reads_if_not (by simpa using hopen) (reads_token hvisible fun t ht => ?_)
    have hfits : t.fitsGroup false = true := Token.fitsGroup_iff.2 (by rwa [Token.form, ht])
    refine reads_if hfits (reads_bind (reads_skip hvisible) (reads_bind hrest (reads_pure_of_eq ?_)))
    simp
  | group hcomments hg hr ih =>
    obtain ⟨before, behind, rfl, rfl, hcons⟩ := List.map_eq_append_iff.1 hforms
    obtain ⟨g, q, rfl, rfl, rfl⟩ := List.map_eq_append_iff.1 hcons
    obtain ⟨f, s, hfirst, hkind, hopen⟩ := hg.first
    obtain ⟨k, g, rfl, rfl, rfl⟩ := List.map_eq_cons_iff.1 hfirst
    have hk : k.isComment = false := beq_eq_false_iff_ne.2 hkind
    have hvisible := visible_append (isComment_of_forms hcomments) hk (g ++ (q ++ l :: r))
    obtain ⟨n, rfl⟩ : ∃ m, n = m + 1 := ⟨n - 1, by simp at hn; omega⟩
    have hrest := ih rfl n (by simp at hn; omega)
    have hclose : isClosingBracket k.text = false := isClosingBracket_of_opens hopen
    rw [List.append_assoc, List.append_assoc, List.cons_append]
    unfold skipUntil
    refine reads_bind (reads_text hvisible) (reads_bind (reads_atEnd hvisible) (reads_if_not ?_ ?_))
    · simpa using hclose
    refine reads_if hopen (reads_bind (reads_isGroup hk hg hvisible) ?_)
    exact reads_bind hrest (reads_pure_of_eq (by simp))

end Again

end Reader

end ModelPool.Source
