import ModelPool.Proofs.Source.Passing
import ModelPool.Proofs.Source.Recutting

/-!
# Proofs/Source/Lengths — the length of an array is a text of its own

The length of an array is kept as the text between the semicolon and the bracket.  Put between another
semicolon and another bracket, it is cut into the same lexemes and passed over up to that bracket, so it is
read as the same length again.

* `IsLength` — a text that is.
* `isLength_of_passed` — what stands between a semicolon and a bracket is a length.
-/

namespace ModelPool

open Text

namespace Source

open Lexeme

/-! ## Lengths -/

/-- The lexemes of a length that stands behind a blank. -/
def lengthLexemes (s : String) : List Lexeme :=
  ((tokensFrom .origin (' ' :: s.toList ++ [']'])).map Token.bare).dropLast

/-- **A text that is read as a length** between a semicolon and a bracket. -/
structure IsLength (s : String) : Prop where
  ne_nil : lengthLexemes s ≠ []
  print : print (lengthLexemes s) = ' ' :: s.toList
  spanned : spanned (visible (lengthLexemes s)) = s.toList
  legible : ∀ rest, Legible (lengthLexemes s) (']' :: rest)
  passes : Passes ((lengthLexemes s).map Lexeme.form)
  trimmed : trimmed s = s

section Lengths

variable {s : String} {ls r : List Lexeme} {l : Lexeme} {fs : List Form}

/-- The lexemes of a print before a bracket. -/
theorem lengthLexemes_eq (hprint : Lexeme.print ls = ' ' :: s.toList) (hlegible : Legible ls [']']) :
    lengthLexemes s = ls := by
  have hall : Legible (ls ++ [⟨.punctuation, [], "]"⟩]) [] :=
    legible_append.2 ⟨hlegible, before_loneSign rfl (c := ']') (by decide) [], trivial⟩
  obtain ⟨ts, q, htokens, hts⟩ := exists_tokensFrom hall .origin
  rw [tokensFrom_of_spaces q rfl] at htokens
  have htext : Lexeme.print (ls ++ [⟨.punctuation, [], "]"⟩]) ++ [] = ' ' :: s.toList ++ [']'] := by
    simp [hprint]
  rw [lengthLexemes, ← htext, htokens, List.append_nil, hts, List.dropLast_concat]

theorem Passes.sound (h : Passes fs) : ∀ f ∈ fs, IsSound f.1 := by
  have hcomment : ∀ {f : Form}, f.1 = .comment → IsSound f.1 := fun hf => by simp [IsSound, hf]
  have hfits : ∀ {f : Form}, fitsGroup f → IsSound f.1 := fun hf => ⟨hf.1, hf.2.2⟩
  induction h with
  | nil => exact fun f hf => absurd hf List.not_mem_nil
  | token hcomments _ hf _ _ _ ih =>
    exact List.forall_mem_append.2 ⟨fun f hf => hcomment (hcomments f hf),
      List.forall_mem_cons.2 ⟨hfits hf, ih⟩⟩
  | group hcomments hg _ ih =>
    exact List.forall_mem_append.2 ⟨fun f hf => hcomment (hcomments f hf),
      List.forall_mem_append.2 ⟨fun f hf => hfits (hg.fits f hf), ih⟩⟩

/-- A run that is passed over ends with a token that is no comment, or with a bracket. -/
theorem Passes.last (h : Passes fs) : ∀ f ∈ fs.getLast?, f.1 ≠ .comment ∨ isClosingBracket f.2 = true := by
  induction h with
  | nil => simp
  | @token _ r f _ hkind _ _ _ _ ih =>
    cases hr : r.getLast? with
    | none => simp [List.getLast?_cons, hr, hkind]
    | some k => simpa [List.getLast?_cons, hr] using ih
  | @group _ g r _ hg _ ih =>
    obtain ⟨f, hf, hclosing⟩ := hg.last
    cases hr : r.getLast? with
    | none => simp [List.getLast?_append, hr, hf, hclosing]
    | some k => simpa [List.getLast?_append, hr] using ih

/-- The comments that a run begins with may be left out. -/
theorem Passes.exists_first (h : Passes fs) (hne : fs ≠ []) : ∃ comments f r, fs = comments ++ f :: r ∧
    (∀ f ∈ comments, f.1 = .comment) ∧ f.1 ≠ .comment ∧ Passes (f :: r) := by
  cases h with
  | nil => exact absurd rfl hne
  | token hcomments hkind hfits hopen hclose hr =>
    exact ⟨_, _, _, rfl, hcomments, hkind, .token (List.forall_mem_nil _) hkind hfits hopen hclose hr⟩
  | @group comments g r hcomments hg hr =>
    obtain ⟨f, q, rfl, hkind, -⟩ := hg.first
    exact ⟨comments, f, q ++ r, rfl, hcomments, hkind, .group (List.forall_mem_nil _) hg hr⟩

/-- No blank stands at the end of a run. -/
theorem getLast?_print {rest : List Char} (hlegible : Legible (l :: r) rest)
    (hsound : ∀ k ∈ l :: r, IsSound k.kind) (hlast : ∀ k ∈ (l :: r).getLast?, k.isComment = false) :
    ∃ d, (l.text.toList ++ Lexeme.print r).getLast? = some d ∧ isBlank d = false := by
  induction r generalizing l with
  | nil =>
    obtain ⟨c, w, htext, -, hcut⟩ := hlegible.1.cut
    rw [htext, print_nil, List.append_nil]
    exact isBlank_last hcut (hsound l List.mem_cons_self) (beq_eq_false_iff_ne.1 (hlast l rfl))
  | cons k r ih =>
    obtain ⟨d, hd, hblank⟩ := ih hlegible.2 (List.forall_mem_cons.1 hsound).2 (by simpa using hlast)
    refine ⟨d, ?_, hblank⟩
    rw [print_cons, List.append_assoc, List.getLast?_append, List.getLast?_append, hd]
    rfl

/-- The run of a text without blanks at its ends. -/
theorem trim_of_legible {rest : List Char} (hlegible : Legible (l :: r) rest)
    (hsound : ∀ k ∈ l :: r, IsSound k.kind) (hlast : ∀ k ∈ (l :: r).getLast?, k.isComment = false) :
    trim (l.text.toList ++ Lexeme.print r) = l.text.toList ++ Lexeme.print r := by
  obtain ⟨c, w, htext, -, hcut⟩ := hlegible.1.cut
  have hc : isBlank c = false := by
    rw [Bool.eq_false_iff]
    intro hblank
    have hkind := congrArg Prod.fst (hcut.symm.trans (lexeme_of_isBlank hblank _))
    exact (hsound l List.mem_cons_self).1 hkind
  obtain ⟨d, hlast, hd⟩ := getLast?_print hlegible hsound hlast
  refine trim_of_ends (fun e he => ?_) fun e he => ?_
  · rw [htext] at he
    exact Option.some.inj he ▸ hc
  · exact Option.some.inj (hlast.symm.trans he) ▸ hd

/-- **A run behind a blank is the run of a length** if it stands well before a bracket and is passed over. -/
theorem isLength_of_lexemes (hspace : l.space = [' ']) (hl : l.isComment = false)
    (hs : s.toList = l.text.toList ++ Lexeme.print r) (hlegible : ∀ rest, Legible (l :: r) (']' :: rest))
    (hpasses : Passes ((l :: r).map Lexeme.form))
    (hlast : ∀ k ∈ (l :: r).getLast?, k.isComment = false) : IsLength s ∧ lengthLexemes s = l :: r := by
  have hprint : Lexeme.print (l :: r) = ' ' :: s.toList := by simp [hspace, hs]
  have hlexemes := lengthLexemes_eq hprint (hlegible [])
  have hsound : ∀ k ∈ l :: r, IsSound k.kind := fun k hk => hpasses.sound _ (List.mem_map_of_mem hk)
  refine ⟨⟨?_, ?_, ?_, ?_, ?_, ?_⟩, hlexemes⟩
  · simp [hlexemes]
  · rw [hlexemes, hprint]
  · rw [hlexemes, visible_cons hl, hs]
    rfl
  · rwa [hlexemes]
  · rwa [hlexemes]
  · rw [trimmed, hs, trim_of_legible (hlegible []) hsound hlast, ← hs, String.ofList_toList]

/-! ## What stands between a semicolon and a bracket -/

variable {p : Position} {cs : List Char} {ts done : List Token} {c c' : Cursor} {t : Token}

/-- A run that begins with no comment is the run of a length, up to a bracket. -/
theorem isLength_of_run {u : Token} {run rest : List Token}
    (htokens : tokensFrom p cs = (u :: run) ++ t :: rest) (hu : u.isComment = false)
    (hpasses : Passes ((u :: run).map Token.form)) (ht : t.isComment = true ∨ t.text = "]") :
    IsLength (String.ofList (Token.spanned (u :: run))) := by
  have hforms : (u :: run).map Token.form = ((u :: run).map Token.bare).map Lexeme.form := by
    rw [List.map_map]
    rfl
  have hsound : ∀ k ∈ (u :: run).map Token.bare, IsSound k.kind := fun k hk =>
    (hforms ▸ hpasses).sound _ (List.mem_map_of_mem hk)
  have hlast : ∀ k ∈ ((u :: run).map Token.bare).getLast?, k.isComment = false := by
    intro k hk
    obtain ⟨v, hv, rfl⟩ := Option.map_eq_some_iff.1 (List.getLast?_map ▸ hk)
    have hmem : v ∈ tokensFrom p cs := htokens ▸ List.mem_append_left _ (List.mem_of_getLast? hv)
    cases hcomment : v.isComment with
    | false => exact hcomment
    | true =>
      rcases hpasses.last v.form (by rw [List.getLast?_map, hv]; rfl) with hkind | hclosing
      · exact absurd (beq_iff_eq.1 hcomment) hkind
      · exact absurd (hclosing.symm.trans (isClosingBracket_of_comment hmem hcomment)) (by decide)
  obtain ⟨q, cs', -, hrest, hlegible⟩ := exists_cut htokens (by simp) fun v hv =>
    hsound _ (List.mem_map_of_mem hv)
  obtain ⟨d, r, rfl, hd⟩ := exists_apart hrest.symm ht
  have hbracket := hlegible.before_bracket hd hsound hlast
  refine (isLength_of_lexemes (l := ⟨u.kind, [' '], u.text⟩) (r := run.map Token.bare) rfl hu ?_
    (fun rest => ⟨⟨rfl, (hbracket rest).1.cut⟩, (hbracket rest).2⟩) (hforms ▸ hpasses) ?_).1
  · rw [String.toList_ofList, Token.spanned, Token.print_eq]
  · cases run with
    | nil => rintro _ ⟨⟩; exact hu
    | cons v run => simpa using hlast

/-- **What has been passed over up to a bracket is a length.** -/
theorem isLength_of_passed (hc : c.rest = tokensFrom p cs) (hpassed : c.Passed done c')
    (hdone : done ≠ []) (hpasses : Passes (done.map Token.form)) (ht : c'.ahead? = some t)
    (hbracket : t.text = "]") : IsLength (Text.trimmed (String.ofList (Token.spanned (c.upTo c')))) := by
  obtain ⟨comments, f, fs, hforms, hcomments, hf, hpasses'⟩ := hpasses.exists_first (by simpa using hdone)
  obtain ⟨before, behind, rfl, rfl, hbehind⟩ := List.map_eq_append_iff.1 hforms
  obtain ⟨u, run, rfl, rfl, rfl⟩ := List.map_eq_cons_iff.1 hbehind
  have hu : u.isComment = false := beq_eq_false_iff_ne.2 hf
  have hbefore : ∀ v ∈ before, v.isComment = true := fun v hv =>
    beq_iff_eq.2 (hcomments _ (List.mem_map_of_mem hv))
  have hupTo : c.upTo c' = u :: run := by
    rw [hpassed.upTo_eq, List.dropWhile_append_of_pos hbefore,
      List.dropWhile_cons_of_neg (by simp [hu])]
  obtain ⟨q, cs', hdrop⟩ := exists_tokensFrom_drop p cs before.length
  rw [← hc, hpassed.rest, List.append_assoc, List.drop_left] at hdrop
  obtain ⟨further, hfurther, hall, -⟩ := Cursor.exists_passed_forward ht
  have hlength : IsLength (String.ofList (Token.spanned (u :: run))) := by
    rw [hfurther.rest] at hdrop
    cases further with
    | nil => exact isLength_of_run hdrop.symm hu hpasses' (.inr hbracket)
    | cons v further => exact isLength_of_run hdrop.symm hu hpasses' (.inl (hall v List.mem_cons_self))
  rw [hupTo, hlength.trimmed]
  exact hlength

end Lengths

end Source

end ModelPool
