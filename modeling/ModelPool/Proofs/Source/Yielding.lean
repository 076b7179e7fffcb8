import ModelPool.Proofs.Source.Moves
import ModelPool.Proofs.Source.Reading

/-!
# Proofs/Source/Yielding — what a reader can yield

What is known of a result, and of the place it was found at, is told by a condition on both: `Yields` says
that whatever a reader yields meets it.  Nothing is said of a reader that gives up.  The condition is taken
through a reader backwards, part by part; a part that is of no account is passed over, since it only moves
forward.

* `Reader.Yields` — the conditions.
* `Cursor.Passed` — the tokens between two places.
-/

namespace ModelPool.Source

/-! ## The tokens between two places -/

namespace Cursor

/-- **These tokens stand between the two places.** -/
structure Passed (c : Cursor) (done : List Token) (later : Cursor) : Prop where
  rest : c.rest = done ++ later.rest
  taken : later.taken = c.taken + done.length

variable {c d e : Cursor} {done more : List Token} {t : Token}

theorem Passed.refl (c : Cursor) : c.Passed [] c := ⟨rfl, rfl⟩

theorem Passed.trans (h : c.Passed done d) (h' : d.Passed more e) : c.Passed (done ++ more) e :=
  ⟨by rw [h.rest, h'.rest, List.append_assoc],
    by rw [h'.taken, h.taken, List.length_append, Nat.add_assoc]⟩

/-- The text between two places begins with no comment. -/
theorem Passed.upTo_eq (h : c.Passed done d) : c.upTo d = done.dropWhile Token.isComment := by
  rw [upTo, h.taken, Nat.add_sub_cancel_left, h.rest, List.take_left']
  rfl

/-- Comments are passed over. -/
theorem passed_comments (c : Cursor) :
    ∃ comments, c.Passed comments c.passComments ∧ (∀ u ∈ comments, u.isComment = true) ∧
      ∀ u ∈ c.passComments.rest.head?, u.isComment = false := by
  have hsplit := List.takeWhile_append_dropWhile (p := Token.isComment) (l := c.rest)
  have hhead := List.head?_dropWhile_not Token.isComment c.rest
  have hall : ∀ u ∈ c.rest.takeWhile Token.isComment, u.isComment = true :=
    fun u hu => List.mem_takeWhile_imp hu
  refine ⟨c.rest.takeWhile Token.isComment, ?_, hall, ?_⟩
  · unfold passComments
    dsimp only
    split
    · next hnone =>
      rw [List.getLast?_eq_none_iff.1 hnone]
      exact .refl c
    · exact ⟨hsplit.symm, rfl⟩
  · have hrest : c.passComments.rest = c.rest.dropWhile Token.isComment := by
      unfold passComments
      dsimp only
      split
      · next hnone =>
        rw [List.getLast?_eq_none_iff.1 hnone, List.nil_append] at hsplit
        exact hsplit.symm
      · rfl
    rw [hrest]
    intro u hu
    simpa [Option.mem_def.1 hu] using hhead

theorem ahead?_of_head (h : ∀ u ∈ c.rest.head?, u.isComment = false) : c.ahead? = c.rest.head? := by
  have hnone : c.rest.takeWhile Token.isComment = [] := by
    cases hrest : c.rest with
    | nil => rfl
    | cons u r => exact List.takeWhile_cons_of_neg (by simp [h u (by rw [hrest]; rfl)])
  rw [ahead?, passComments, hnone]
  rfl

/-- The token ahead is passed over with the comments before it. -/
theorem exists_passed_forward (h : c.ahead? = some t) : ∃ comments,
    c.Passed (comments ++ [t]) c.forward ∧ (∀ u ∈ comments, u.isComment = true) ∧
      t.isComment = false := by
  obtain ⟨comments, hpassed, hall, hhead⟩ := c.passed_comments
  obtain ⟨r, hr⟩ := List.head?_eq_some_iff.1 h
  refine ⟨comments, hpassed.trans ?_, hall, hhead t h⟩
  unfold forward
  dsimp only
  rw [hr]
  exact ⟨hr, rfl⟩

end Cursor

/-! ## Conditions on results -/

namespace Reader

variable {α β : Type} {m n : Reader α} {f : α → Reader β} {c : Cursor} {a : α}
  {Q Q' : α → Cursor → Prop} {R : β → Cursor → Prop}

/-- **Whatever the reader yields here** meets the condition. -/
def Yields (m : Reader α) (c : Cursor) (Q : α → Cursor → Prop) : Prop :=
  ∀ a c', m.run c = some (a, c') → Q a c'

theorem Yields.imp (h : Yields m c Q) (himp : ∀ a c', Q a c' → Q' a c') : Yields m c Q' :=
  fun a c' hrun => himp a c' (h a c' hrun)

theorem Yields.and (h : Yields m c Q) (h' : Yields m c Q') : Yields m c fun a c' => Q a c' ∧ Q' a c' :=
  fun a c' hrun => ⟨h a c' hrun, h' a c' hrun⟩

theorem yields_of_forall (h : ∀ a c', Q a c') : Yields m c Q := fun a c' _ => h a c'

theorem yields_pure (h : Q a c) : Yields (pure a) c Q := by
  rintro _ _ ⟨⟩
  exact h

theorem yields_failure : Yields (failure : Reader α) c Q := fun _ _ h => nomatch h

/-- What follows a part meets the condition if it does behind all that the part may yield. -/
theorem yields_bind (h : Yields m c fun a c' => Yields (f a) c' R) : Yields (m >>= f) c R := by
  intro b c'' hrun
  obtain ⟨a, c', hm, hf⟩ := run_bind_eq_some.1 hrun
  exact h a c' hm b c'' hf

/-- A part of which a condition is known. -/
theorem yields_then [hmoves : Moves m] (hm : Yields m c Q)
    (hf : ∀ a c', c.Precedes c' → Q a c' → Yields (f a) c' R) : Yields (m >>= f) c R :=
  yields_bind fun a c' hrun => hf a c' (hmoves.precedes hrun) (hm a c' hrun)

/-- A part that is of no account. -/
theorem yields_past [hmoves : Moves m] (hf : ∀ a c', c.Precedes c' → Yields (f a) c' R) :
    Yields (m >>= f) c R :=
  yields_bind fun a c' hrun => hf a c' (hmoves.precedes hrun)

theorem yields_if {p : Prop} [Decidable p] (hm : p → Yields m c Q) (hn : ¬ p → Yields n c Q) :
    Yields (if p then m else n) c Q := by
  split <;> simp_all

theorem yields_orElse (hm : Yields m c Q) (hn : Yields n c Q) : Yields (m <|> n) c Q :=
  fun a c' hrun => (run_orElse_eq_some hrun).elim (hm a c') (hn a c')

theorem yields_map {g : α → β} (h : Yields m c fun a c' => R (g a) c') : Yields (g <$> m) c R := by
  intro b c' hrun
  obtain ⟨a, ha, rfl⟩ := run_map_eq_some.1 hrun
  exact h a c' ha

theorem yields_get {Q : Cursor → Cursor → Prop} (h : Q c c) : Yields get c Q := by
  rintro _ _ ⟨⟩
  exact h

theorem yields_modify {Q : Unit → Cursor → Prop} {g : Cursor → Cursor} (h : Q () (g c)) :
    Yields (modify g) c Q := by
  rintro _ _ ⟨⟩
  exact h

/-! ### Looking ahead -/

theorem yields_token {Q : Option Token → Cursor → Prop} (h : Q c.ahead? c) : Yields token? c Q := by
  rintro _ _ ⟨⟩
  exact h

theorem yields_text {Q : String → Cursor → Prop} (h : Q (textOf c.ahead?) c) : Yields text c Q := by
  intro s c' hrun
  rw [run_text] at hrun
  cases hrun
  exact h

theorem yields_textPair {Q : String × String → Cursor → Prop}
    (h : Q (textOf c.ahead?, textOf c.forward.ahead?) c) : Yields textPair c Q := by
  intro s c' hrun
  rw [run_textPair] at hrun
  cases hrun
  exact h

theorem yields_kind {Q : Option TokenKind → Cursor → Prop} (h : Q (c.ahead?.map Token.kind) c) :
    Yields kind? c Q := by
  rintro _ _ ⟨⟩
  exact h

theorem yields_atEnd {Q : Bool → Cursor → Prop} (h : Q c.ahead?.isNone c) : Yields atEnd c Q := by
  rintro _ _ ⟨⟩
  exact h

theorem yields_closes {Q : Bool → Cursor → Prop} {s : String} (h : ∀ closed, Q closed c) : Yields (closes s) c Q := by
  unfold closes
  exact yields_bind (yields_atEnd (yields_bind (yields_text (yields_pure (h _)))))

/-! ### Moving on -/

theorem yields_skip {Q : Unit → Cursor → Prop} (h : Q () c.forward) : Yields skip c Q :=
  yields_modify h

/-- A sign that may be ahead. -/
theorem yields_optional {Q : Bool → Cursor → Prop} {s : String}
    (hahead : textOf c.ahead? = s → Q true c.forward) (helse : textOf c.ahead? ≠ s → Q false c) :
    Yields (optional s) c Q := by
  unfold optional
  refine yields_bind (yields_text (yields_if (fun h => ?_) fun h => ?_))
  · exact yields_bind (yields_skip (yields_pure (hahead (beq_iff_eq.1 h))))
  · exact yields_pure (helse fun heq => h (beq_iff_eq.2 heq))

/-- A sign that has to be ahead. -/
theorem yields_expect {Q : Unit → Cursor → Prop} {s : String}
    (h : textOf c.ahead? = s → Q () c.forward) : Yields (expect s) c Q := by
  unfold expect
  refine yields_bind (yields_optional (fun hs => ?_) fun hs => ?_)
  · exact yields_if (fun hfalse => absurd hfalse (by decide)) fun _ => yields_pure (h hs)
  · exact yields_if (fun _ => yields_failure) fun htrue => absurd rfl htrue

/-- A token that has to be of a kind. -/
theorem yields_take {Q : String → Cursor → Prop} {kind : TokenKind}
    (h : ∀ t, c.ahead? = some t → t.kind = kind → Q t.text c.forward) : Yields (take kind) c Q := by
  unfold take
  refine yields_bind (yields_token ?_)
  split
  · next t ht =>
    exact yields_if (fun hkind => yields_bind (yields_skip (yields_pure (h t ht hkind))))
      fun _ => yields_failure
  · exact yields_failure

/-- A token that may be of a kind. -/
theorem yields_take? {Q : Option String → Cursor → Prop} {kind : TokenKind}
    (hsome : ∀ t, c.ahead? = some t → t.kind = kind → Q (some t.text) c.forward)
    (hnone : c.ahead?.map Token.kind ≠ some kind → Q none c) : Yields (take? kind) c Q := by
  unfold take?
  refine yields_bind (yields_kind (yields_if (fun _ => ?_) fun hkind => yields_pure (hnone hkind)))
  exact yields_bind (yields_take fun t ht hkind => yields_pure (hsome t ht hkind))

theorem yields_since {Q : String → Cursor → Prop} {start : Cursor}
    (h : Q (String.ofList (Token.spanned (start.upTo c))) c) : Yields (since start) c Q := by
  rintro _ _ ⟨⟩
  exact h

end Reader

end ModelPool.Source
