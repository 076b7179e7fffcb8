import ModelPool.Proofs.Source.AttributeText
import ModelPool.Proofs.Source.Stretches

/-!
# Proofs/Source/AttributeReading — attributes are laid out as they are read

Whatever the reader of attributes takes is an attribute laid out by the grammar, so every attribute of a source
has a layout, and what a file declares by its attributes is told by their tokens wherever the layouts are plain.

* `yields_attributeText` — what has been taken is laid out.
* `SourceUnit.attributes_by_tokens` — what the attributes of a source declare.
-/

namespace ModelPool

namespace Source

open Lexeme

/-! ## The lexemes that are taken -/

namespace Cursor

variable {c d e : Cursor} {ls ls' : List Lexeme} {t : Token}

/-- **These lexemes stand between the two places.** -/
def Takes (c : Cursor) (ls : List Lexeme) (later : Cursor) : Prop :=
  ∃ done, c.Passed done later ∧ done.map Token.bare = ls

theorem Takes.refl (c : Cursor) : c.Takes [] c := ⟨[], .refl c, rfl⟩

theorem Takes.trans (h : c.Takes ls d) (h' : d.Takes ls' e) : c.Takes (ls ++ ls') e := by
  obtain ⟨done, hpassed, rfl⟩ := h
  obtain ⟨more, hpassed', rfl⟩ := h'
  exact ⟨done ++ more, hpassed.trans hpassed', List.map_append⟩

/-- White space stands before every token. -/
theorem space_of_mem {p : Position} {cs : List Char} (ht : t ∈ tokensFrom p cs) : t.space.all isSpace = true := by
  generalize hts : tokensFrom p cs = ts at ht
  induction ts generalizing p cs with
  | nil => exact absurd ht List.not_mem_nil
  | cons u ts ih =>
    obtain ⟨q, c, r, n, -, -, hspace, -, -, hrest⟩ := exists_first hts
    rcases List.mem_cons.1 ht with rfl | ht
    · exact hspace
    · exact ih hrest.symm ht

/-- A token of a text and the comments before it. -/
theorem IsCut.isSpaced (hc : c.IsCut) {comments r : List Token} (hrest : c.rest = comments ++ t :: r)
    (hall : ∀ u ∈ comments, u.isComment = true) : Spaced.IsSpaced ⟨comments.map Token.bare, t.bare⟩ := by
  obtain ⟨q, cs, hcut⟩ := hc
  have hmem : ∀ u ∈ comments ++ [t], u ∈ tokensFrom q cs := fun u hu => by
    rw [← hcut, hrest, ← List.singleton_append, ← List.append_assoc]
    exact List.mem_append_left _ hu
  refine ⟨List.forall_mem_map.2 fun u hu => ?_, ?_⟩
  · exact isComment_of_mem_tokensFrom (hmem u (List.mem_append_left _ hu)) (hall u hu)
  · have hlexemes : Spaced.lexemes ⟨comments.map Token.bare, t.bare⟩ = (comments ++ [t]).map Token.bare := by
      simp [Spaced.lexemes]
    rw [hlexemes]
    exact List.forall_mem_map.2 fun u hu => space_of_mem (hmem u hu)

/-- **The token ahead** is taken with the comments before it. -/
theorem IsCut.exists_spaced (hc : c.IsCut) (h : c.ahead? = some t) :
    ∃ p : Spaced, c.Takes p.lexemes c.forward ∧ p.lexeme = t.bare ∧ p.IsSpaced := by
  obtain ⟨comments, hpassed, hall, -⟩ := exists_passed_forward h
  refine ⟨⟨comments.map Token.bare, t.bare⟩, ⟨_, hpassed, by simp [Spaced.lexemes]⟩, rfl,
    hc.isSpaced (r := c.forward.rest) ?_ hall⟩
  rw [hpassed.rest, List.append_assoc]
  rfl

end Cursor

/-! ## Readers -/

/-- The bracket that the outermost open group ends in is the last token of all. -/
theorem exists_last_of_groupLength {quotes : Bool} {pending : List String} {ts : List Token} {n : Nat}
    (h : groupLength quotes pending ts = some n) (hpending : pending ≠ []) :
    ∃ inner t, ts.take n = inner ++ [t] ∧ pending.getLast? = some t.text := by
  have hbehind : ∀ {t u : Token} {r inner : List Token} {k : Nat}, r.take k = inner ++ [u] →
      (t :: r).take (k + 1) = (t :: inner) ++ [u] := fun htake => by rw [List.take_succ_cons, htake, List.cons_append]
  fun_induction groupLength quotes pending ts generalizing n with
  | case3 pending t r hfits sign hsign ih =>
    obtain ⟨k, hk, rfl⟩ := Option.map_eq_some_iff.1 h
    obtain ⟨inner, u, htake, hlast⟩ := ih hk (by simp)
    exact ⟨t :: inner, u, hbehind htake, by rwa [List.getLast?_cons_of_ne_nil hpending] at hlast⟩
  | case5 t r hfits hopen hclose sign hsign =>
    obtain rfl := Option.some.inj h
    exact ⟨[], t, rfl, congrArg some (beq_iff_eq.1 hsign)⟩
  | case7 t r hfits hopen hclose sign outer hne hsign ih =>
    obtain ⟨k, hk, rfl⟩ := Option.map_eq_some_iff.1 h
    obtain ⟨inner, u, htake, hlast⟩ := ih hk hne
    exact ⟨t :: inner, u, hbehind htake, by rwa [List.getLast?_cons_of_ne_nil hne]⟩
  | case9 pending t r hfits hopen hclose ih =>
    obtain ⟨k, hk, rfl⟩ := Option.map_eq_some_iff.1 h
    obtain ⟨inner, u, htake, hlast⟩ := ih hk hpending
    exact ⟨t :: inner, u, hbehind htake, hlast⟩
  | _ => exact absurd h (by simp)

/-- **A group** stands between a bracket and the one that closes it. -/
theorem exists_group_of_length {quotes : Bool} {t : Token} {r : List Token} {n : Nat} {sign : String}
    (h : groupLength quotes [] (t :: r) = some n) (hopen : closingBracket? t.text = some sign) :
    ∃ inner u, (t :: r).take n = t :: (inner ++ [u]) ∧ u.text = sign := by
  unfold groupLength at h
  split at h
  · exact absurd h (by simp)
  · rw [hopen] at h
    obtain ⟨k, hk, rfl⟩ := Option.map_eq_some_iff.1 h
    obtain ⟨inner, u, htake, hlast⟩ := exists_last_of_groupLength hk (List.cons_ne_nil _ _)
    exact ⟨inner, u, by rw [List.take_succ_cons, htake], (Option.some.inj hlast).symm⟩

namespace Reader

open Cursor

variable {n : Nat} {c : Cursor} {s : String}

theorem yields_expect_spaced (hs : s ≠ "") (hc : c.IsCut) : Yields (expect s) c fun _ c' =>
    ∃ p : Spaced, c.Takes p.lexemes c' ∧ p.lexeme.text = s ∧ p.IsSpaced := by
  refine yields_expect fun htext => ?_
  obtain ⟨t, ht⟩ := exists_ahead?_of_textOf hs htext
  obtain ⟨p, htakes, hlexeme, hspaced⟩ := hc.exists_spaced ht
  refine ⟨p, htakes, ?_, hspaced⟩
  rw [hlexeme, ← htext, ht]
  rfl

/-- A path is words with colons between them. -/
theorem yields_plainPath (hc : c.IsCut) : Yields (plainPath n) c fun _ c' => ∃ ps : List Spaced,
    ps ≠ [] ∧ c.Takes (ps.flatMap Spaced.lexemes) c' ∧ ∀ p ∈ ps, IsPathText p.text ∧ p.IsSpaced := by
  induction n generalizing c with
  | zero => exact yields_failure
  | succ n ih =>
    have hcolons : Yields (optional "::") c fun _ c' => ∃ ps : List Spaced,
        c.Takes (ps.flatMap Spaced.lexemes) c' ∧ ∀ p ∈ ps, IsPathText p.text ∧ p.IsSpaced := by
      refine yields_optional (fun htext => ?_) fun _ => ⟨[], .refl c, List.forall_mem_nil _⟩
      obtain ⟨t, ht⟩ := exists_ahead?_of_textOf (by decide) htext
      obtain ⟨p, htakes, hlexeme, hspaced⟩ := hc.exists_spaced ht
      have hp : p.text = [':', ':'] := by
        rw [Spaced.text, hlexeme, show t.bare.text = "::" by rw [← htext, ht]; rfl]
        rfl
      exact ⟨[p], by simpa using htakes, List.forall_mem_singleton.2 ⟨.inl hp, hspaced⟩⟩
    have hword : ∀ {d : Cursor}, d.IsCut → Yields word d fun _ c' => ∃ p : Spaced,
        d.Takes p.lexemes c' ∧ IsPathText p.text ∧ p.IsSpaced := by
      refine fun hd => yields_take fun t ht hkind => ?_
      obtain ⟨p, htakes, hlexeme, hspaced⟩ := hd.exists_spaced ht
      refine ⟨p, htakes, .inr ?_, hspaced⟩
      rw [Spaced.text, hlexeme]
      exact t.isWord hkind
    unfold plainPath
    refine yields_then hcolons ?_
    rintro - d hd ⟨ps, htakes, hps⟩
    refine yields_then (hword (hc.of_precedes hd)) ?_
    rintro - e he ⟨p, htakes', hp⟩
    have hsofar : c.Takes ((ps ++ [p]).flatMap Spaced.lexemes) e := by
      rw [List.flatMap_append, List.flatMap_singleton]
      exact htakes.trans htakes'
    have hall : ∀ q ∈ ps ++ [p], IsPathText q.text ∧ q.IsSpaced :=
      List.forall_mem_append.2 ⟨hps, List.forall_mem_singleton.2 hp⟩
    refine yields_bind (yields_text (yields_if (fun _ => ?_) fun _ => yields_pure ⟨_, by simp, hsofar, hall⟩))
    refine (ih ((hc.of_precedes hd).of_precedes he)).imp ?_
    rintro - f ⟨qs, -, htakes'', hqs⟩
    refine ⟨(ps ++ [p]) ++ qs, by simp, ?_, List.forall_mem_append.2 ⟨hall, hqs⟩⟩
    rw [List.flatMap_append]
    exact hsofar.trans htakes''

/-- A group ends in the bracket that closes it. -/
theorem yields_group_closed {quotes : Bool} (hc : c.IsCut) : Yields (group quotes) c fun _ c' =>
    ∃ (p : Spaced) (inside : List Lexeme) (closing : Lexeme), c.Takes (p.lexemes ++ (inside ++ [closing])) c' ∧
      closingBracket? p.lexeme.text = some closing.text ∧ p.IsSpaced := by
  obtain ⟨comments, hpassed, hcomments, hhead⟩ := c.passed_comments
  unfold group
  refine yields_bind (yields_modify (yields_bind (yields_text (yields_bind (yields_get ?_)))))
  split
  · next sign k hopen hlength =>
    rw [ahead?_of_head hhead] at hopen
    cases hrest : c.passComments.rest with
    | nil => simp [hrest, textOf, closingBracket?] at hopen
    | cons t r =>
      have hopen : closingBracket? t.text = some sign := by rwa [hrest] at hopen
      rw [hrest] at hlength
      obtain ⟨inner, u, htake, hsign⟩ := exists_group_of_length hlength hopen
      refine yields_modify ⟨⟨comments.map Token.bare, t.bare⟩, inner.map Token.bare, u.bare,
        ⟨comments ++ t :: (inner ++ [u]), hpassed.trans ⟨?_, ?_⟩, by simp [Spaced.lexemes]⟩, ?_,
        hc.isSpaced (hpassed.rest.trans (by rw [hrest])) hcomments⟩
      · rw [← htake, hrest]
        exact (List.take_append_drop k (t :: r)).symm
      · rw [← htake, List.length_take_of_le (endsGroup hlength).le]
      · exact hopen.trans (congrArg some hsign.symm)
  · exact yields_failure

/-- A run that is not empty holds more than comments. -/
theorem exists_of_passes {fs : List Form} (h : Passes fs) (hne : fs ≠ []) : ∃ f ∈ fs, f.1 ≠ .comment := by
  cases h with
  | nil => exact absurd rfl hne
  | token _ hkind _ _ _ _ => exact ⟨_, List.mem_append_right _ List.mem_cons_self, hkind⟩
  | group _ hg _ =>
    obtain ⟨f, r, rfl, hkind, -⟩ := hg.first
    exact ⟨f, List.mem_append_right _ List.mem_cons_self, hkind⟩

/-- A value is whatever stands up to a bracket that closes nothing. -/
theorem yields_value (hc : c.IsCut) : Yields (skipUntil [] n) c fun moved c' => moved = true →
    ∃ (p : Spaced) (rest : List Lexeme), c.Takes (p.lexemes ++ rest) c' ∧ p.IsSpaced := by
  refine (yields_skipUntil n c).imp ?_
  rintro moved c' ⟨done, hpassed, hpasses, hmoved⟩ hsome
  obtain ⟨f, hf, hkind⟩ := exists_of_passes hpasses (by simpa using hmoved hsome)
  obtain ⟨t, r, hdrop⟩ : ∃ t r, done.dropWhile Token.isComment = t :: r := by
    obtain ⟨u, hu, rfl⟩ := List.mem_map.1 hf
    refine List.exists_cons_of_ne_nil fun hnil => hkind (beq_iff_eq.1 ?_)
    exact List.dropWhile_eq_nil_iff.1 hnil u hu
  have hsplit : done = done.takeWhile Token.isComment ++ t :: r := by
    rw [← hdrop, List.takeWhile_append_dropWhile]
  refine ⟨⟨(done.takeWhile Token.isComment).map Token.bare, t.bare⟩, r.map Token.bare, ⟨done, hpassed, ?_⟩,
    hc.isSpaced (r := r ++ c'.rest) ?_ fun u hu => List.mem_takeWhile_imp hu⟩
  · conv_lhs => rw [hsplit]
    simp [Spaced.lexemes]
  · rw [hpassed.rest]
    conv_lhs => rw [hsplit]
    simp

/-- **What stands between the brackets of an attribute** has been taken, and the closing one with it. -/
structure TakesBody (c : Cursor) (ps : List Spaced) (a : ArgumentLayout) (closing : Spaced) (c' : Cursor) : Prop where
  takes : c.Takes (ps.flatMap Spaced.lexemes ++ a.lexemes ++ closing.lexemes) c'
  path_ne_nil : ps ≠ []
  path : ∀ p ∈ ps, IsPathText p.text ∧ p.IsSpaced
  arguments : a.IsGrammatical
  closing : closing.lexeme.text = "]" ∧ closing.IsSpaced

theorem yields_attributeBody (hc : c.IsCut) :
    Yields (attributeBody n) c fun _ c' => ∃ ps a closing, TakesBody c ps a closing c' := by
  unfold attributeBody
  refine yields_then (yields_plainPath hc) ?_
  rintro - d hd ⟨ps, hne, htakes, hps⟩
  have hcut := hc.of_precedes hd
  have hend : ∀ (a : ArgumentLayout) {e : Cursor}, e.IsCut → d.Takes a.lexemes e → a.IsGrammatical →
      Yields (expect "]") e fun _ c' => ∃ ps a closing, TakesBody c ps a closing c' := by
    intro a e he ha hgrammatical
    refine (yields_expect_spaced (by decide) he).imp ?_
    rintro - f ⟨closing, hclosing, htext, hspaced⟩
    exact ⟨ps, a, closing, (htakes.trans ha).trans hclosing, hne, hps, hgrammatical, htext, hspaced⟩
  refine yields_bind (yields_text ?_)
  dsimp only
  refine yields_if (fun hequals => yields_bind (yields_skip ?_)) fun _ => yields_if (fun hopen => ?_) fun _ => ?_
  · obtain ⟨t, ht⟩ := exists_ahead?_of_textOf (by decide) (beq_iff_eq.1 hequals)
    obtain ⟨sign, hsign, hlexeme, hspaced⟩ := hcut.exists_spaced ht
    have htext : sign.lexeme.text = "=" := by
      rw [hlexeme, ← beq_iff_eq.1 hequals, ht]
      rfl
    have hforward := hcut.of_precedes d.precedes_forward
    refine yields_then (yields_value hforward) fun moved e he hvalue => yields_if (fun _ => ?_) fun hmoved => ?_
    · exact yields_bind yields_failure
    · obtain ⟨first, rest, hvalue, hfirst⟩ := hvalue (by simpa using hmoved)
      exact hend (.value sign first rest) (hforward.of_precedes he) (hsign.trans hvalue) ⟨htext, hspaced, hfirst⟩
  · refine yields_then (yields_group_closed hcut) ?_
    rintro - e he ⟨opening, inside, closing, hgroup, hclosing, hspaced⟩
    exact hend (.group opening inside closing) (hcut.of_precedes he) hgroup ⟨hclosing, hspaced⟩
  · exact hend .none hcut (.refl d) trivial

/-- The mark of an inner attribute. -/
theorem yields_mark {inner : Bool} (hc : c.IsCut) :
    Yields (if inner then expect "!" else pure ()) c fun _ c' => ∃ mark : Option Spaced,
      c.Takes (mark.toList.flatMap Spaced.lexemes) c' ∧ mark.isSome = inner ∧
        ∀ m ∈ mark, m.lexeme.text = "!" ∧ m.IsSpaced := by
  refine yields_if (fun hinner => (yields_expect_spaced (by decide) hc).imp ?_) fun hinner => yields_pure ?_
  · rintro - c' ⟨m, htakes, htext, hspaced⟩
    exact ⟨some m, by simpa using htakes, hinner.symm, fun p hp => by cases hp; exact ⟨htext, hspaced⟩⟩
  · exact ⟨none, .refl c, (Bool.eq_false_iff.2 hinner).symm, fun p hp => absurd hp (by simp)⟩

/-- **An attribute is laid out as it is read.** -/
theorem yields_attributeText {inner : Bool} (hc : c.IsCutBehind) :
    Yields (attributeText n inner) c fun text c' => ∃ (comments : List Lexeme) (l : AttributeLayout),
      c.Takes (comments ++ l.lexemes) c' ∧ (∀ k ∈ comments, k.isComment = true) ∧ l.IsGrammatical ∧
        l.mark.isSome = inner ∧ text = l.text := by
  have hparts : attributeText n inner = get >>= fun start => expect "#" >>= fun _ =>
      (if inner then expect "!" else pure ()) >>= fun _ => expect "[" >>= fun _ =>
        attributeBody n >>= fun _ => since start := by
    unfold attributeText
    cases inner <;> rfl
  rw [hparts]
  refine yields_bind (yields_get ?_)
  refine yields_bind (yields_expect fun hhash => ?_)
  obtain ⟨t, ht⟩ := exists_ahead?_of_textOf (by decide) hhash
  obtain ⟨comments, hpassed, hcomments, hcomment⟩ := exists_passed_forward ht
  have hcut := hc.forward ht
  refine yields_then (yields_mark hcut) ?_
  rintro - d hd ⟨mark, hmark, hinner, hmarks⟩
  refine yields_then (yields_expect_spaced (by decide) (hcut.of_precedes hd)) ?_
  rintro - e he ⟨opening, hopening, hbracket, hspaced⟩
  refine yields_then (yields_attributeBody ((hcut.of_precedes hd).of_precedes he)) ?_
  rintro - f hf ⟨ps, a, closing, hbody⟩
  have hfirst : c.Takes (comments.map Token.bare ++ [t.bare]) c.forward :=
    ⟨comments ++ [t], hpassed, by rw [List.map_append, List.map_singleton]⟩
  have hall : c.Takes (comments.map Token.bare ++ AttributeLayout.lexemes ⟨t.bare, mark, opening, ps, a, closing⟩) f := by
    have htakes := ((hfirst.trans hmark).trans hopening).trans hbody.takes
    simpa [AttributeLayout.lexemes] using htakes
  have hhash : t.bare.text = "#" := by
    rw [← hhash, ht]
    rfl
  have hbefore : ∀ k ∈ comments.map Token.bare, k.isComment = true := List.forall_mem_map.2 hcomments
  refine yields_since ⟨_, _, hall, hbefore, ⟨hhash, hmarks, ⟨hbracket, hspaced⟩, hbody.path_ne_nil, hbody.path,
    hbody.arguments, hbody.closing⟩, hinner, ?_⟩
  obtain ⟨done, hdone, hbare⟩ := hall
  have hmap : (done.dropWhile Token.isComment).map Token.bare = (done.map Token.bare).dropWhile Lexeme.isComment := by
    rw [List.dropWhile_map]
    rfl
  have hvisible : Lexeme.isComment t.bare = false := hcomment
  rw [AttributeLayout.text, Token.spanned_eq, hdone.upTo_eq, hmap, hbare, List.dropWhile_append_of_pos hbefore]
  simp [AttributeLayout.lexemes, hvisible]

end Reader

/-! ## Tiles -/

namespace AttributeLayout

variable {l : AttributeLayout}

/-- The statement that the attribute is. -/
def statement (l : AttributeLayout) : Statement :=
  if l.mark.isSome then .innerAttribute l.text else .outerAttribute l.text

theorem isSome_mark_of_inner {text : String} (h : l.statement = .innerAttribute text) : l.mark.isSome = true := by
  rw [statement] at h
  cases hmark : l.mark.isSome with
  | true => rfl
  | false => simp [hmark] at h

theorem isSome_mark_of_outer {text : String} (h : l.statement = .outerAttribute text) : l.mark.isSome = false := by
  rw [statement] at h
  cases hmark : l.mark.isSome with
  | true => simp [hmark] at h
  | false => rfl

/-- **How an attribute is read**: a plain layout like the tight one, the tight one as the tokens say unless the
arguments stand in brackets or braces, and then no layout but the plain ones like that. -/
structure IsReadByTokens (l : AttributeLayout) : Prop where
  plain : l.IsPlain → Attribute.ofText? l.text = Attribute.ofText? l.tight.text
  tight : l.arguments.IsStandard → Attribute.ofText? l.tight.text = some l.meaning
  only : l.arguments.IsStandard → Attribute.ofText? l.text = Attribute.ofText? l.tight.text → l.IsPlain

theorem IsGrammatical.isReadByTokens (h : l.IsGrammatical) : l.IsReadByTokens where
  plain := ofText?_plain h
  tight := ofText?_tight h
  only hstandard hsame := (ofText?_eq_meaning_iff h hstandard).1 (hsame.trans (ofText?_tight h hstandard))

end AttributeLayout

namespace Tile

variable {tile : Tile} {tiles : List Tile} {l : AttributeLayout} {ls : List AttributeLayout} {inner : Bool}

/-- **The tile is an attribute**, laid out like this. -/
structure IsAttribute (tile : Tile) (l : AttributeLayout) : Prop where
  lexemes : tile.tokens.map Token.bare = l.lexemes
  grammatical : l.IsGrammatical
  statement : tile.statement = l.statement

/-- An attribute that has been read from its first token on. -/
theorem isAttribute_of_run {fuel : Nat} {c c' : Cursor} {text : String} {t : Token} {r : List Token}
    {s : Statement} (hc : c.IsCutBehind) (hrest : c.rest = t :: r) (ht : t.isComment = false)
    (hrun : (Reader.attributeText fuel inner).run c = some (text, c'))
    (hs : s = if inner then .innerAttribute text else .outerAttribute text) :
    ∃ l, IsAttribute ⟨c.between c', s⟩ l := by
  obtain ⟨comments, l, ⟨done, hpassed, hbare⟩, hcomments, hgrammatical, hinner, htext⟩ :=
    Reader.yields_attributeText hc _ _ hrun
  refine ⟨l, ?_, hgrammatical, by rw [hs, AttributeLayout.statement, hinner, htext]⟩
  have hnone : comments = [] := by
    cases comments with
    | nil => rfl
    | cons k comments =>
      obtain ⟨u, us, rfl, hu, -⟩ := List.map_eq_cons_iff.1 hbare
      have hfirst := hpassed.rest
      rw [hrest] at hfirst
      obtain ⟨rfl, -⟩ := List.cons.inj hfirst
      have hk := hcomments k List.mem_cons_self
      rw [← hu] at hk
      exact absurd (ht.symm.trans hk) (by decide)
  rw [hpassed.between_eq, hbare, hnone, List.nil_append]

/-- **Every attribute is laid out** by the grammar. -/
theorem IsReadAt.exists_layout {fuel : Nat} {c c' : Cursor} (h : tile.IsReadAt fuel c c') (hc : c.IsCutBehind)
    {text : String} (hs : tile.statement = .innerAttribute text ∨ tile.statement = .outerAttribute text) :
    ∃ l, tile.IsAttribute l := by
  cases h with
  | comment => exact absurd hs (by simp)
  | statement hrest ht hread herrors =>
    rcases hs with rfl | rfl
    · cases Reader.isSorted_statement _ _ hread with
      | innerAttribute hrun => exact isAttribute_of_run hc hrest ht hrun rfl
      | lasting hs => exact hs.elim
    · cases Reader.isSorted_statement _ _ hread with
      | outerAttribute hrun => exact isAttribute_of_run hc hrest ht hrun rfl
      | lasting hs => exact hs.elim

/-- **The layouts of the inner or of the outer attributes** among tiles. -/
inductive LaidOut (inner : Bool) : List Tile → List AttributeLayout → Prop where
  | nil : LaidOut inner [] []
  | listed {tile : Tile} {tiles : List Tile} {l : AttributeLayout} {ls : List AttributeLayout}
      (htile : tile.IsAttribute l) (hinner : l.mark.isSome = inner) (h : LaidOut inner tiles ls) :
      LaidOut inner (tile :: tiles) (l :: ls)
  | other {tile : Tile} {tiles : List Tile} {ls : List AttributeLayout}
      (htile : ∀ l, tile.IsAttribute l → l.mark.isSome ≠ inner) (h : LaidOut inner tiles ls) :
      LaidOut inner (tile :: tiles) ls

theorem exists_laidOut (inner : Bool) (tiles : List Tile) : ∃ ls, LaidOut inner tiles ls := by
  induction tiles with
  | nil => exact ⟨[], .nil⟩
  | cons tile tiles ih =>
    obtain ⟨ls, h⟩ := ih
    by_cases htile : ∃ l, tile.IsAttribute l ∧ l.mark.isSome = inner
    · obtain ⟨l, hl, hinner⟩ := htile
      exact ⟨l :: ls, .listed hl hinner h⟩
    · exact ⟨ls, .other (fun l hl hinner => htile ⟨l, hl, hinner⟩) h⟩

/-- Every attribute among the tiles is laid out. -/
def AllLaidOut (tiles : List Tile) : Prop := ∀ tile ∈ tiles, ∀ text,
  tile.statement = .innerAttribute text ∨ tile.statement = .outerAttribute text → ∃ l, tile.IsAttribute l

/-- The attributes of one sort among statements. -/
def attributesIn (inner : Bool) (ss : List Statement) : List Attribute :=
  if inner then innerAttributesIn ss else outerAttributesIn ss

theorem attributesIn_cons_attribute (hinner : l.mark.isSome = inner) (ss : List Statement) :
    attributesIn inner (l.statement :: ss) = (Attribute.ofText? l.text).toList ++ attributesIn inner ss := by
  subst hinner
  rw [AttributeLayout.statement]
  cases l.mark.isSome <;> cases hread : Attribute.ofText? l.text <;>
    simp [attributesIn, innerAttributesIn, outerAttributesIn, hread]

theorem attributesIn_cons_other (htile : ∀ l, tile.IsAttribute l → l.mark.isSome ≠ inner)
    (hall : ∀ text, tile.statement = .innerAttribute text ∨ tile.statement = .outerAttribute text →
      ∃ l, tile.IsAttribute l) (ss : List Statement) :
    attributesIn inner (tile.statement :: ss) = attributesIn inner ss := by
  cases hs : tile.statement with
  | innerAttribute text =>
    obtain ⟨l, hl⟩ := hall text (.inl hs)
    have hsort := AttributeLayout.isSome_mark_of_inner (hl.statement.symm.trans hs)
    obtain rfl : inner = false := Bool.eq_false_iff.2 fun hinner => htile l hl (hsort.trans hinner.symm)
    rfl
  | outerAttribute text =>
    obtain ⟨l, hl⟩ := hall text (.inr hs)
    have hsort := AttributeLayout.isSome_mark_of_outer (hl.statement.symm.trans hs)
    obtain rfl : inner = true := Bool.eq_true_of_not_eq_false fun hinner => htile l hl (hsort.trans hinner.symm)
    rfl
  | _ => cases inner <;> rfl

/-- **The attributes of one sort** are read from the texts of their layouts. -/
theorem LaidOut.attributesIn_eq (h : LaidOut inner tiles ls) (hall : AllLaidOut tiles) :
    attributesIn inner (tiles.map Tile.statement) = ls.filterMap fun l => Attribute.ofText? l.text := by
  induction h with
  | nil => cases inner <;> rfl
  | @listed tile tiles l ls htile hinner _ ih =>
    obtain ⟨-, hall⟩ := List.forall_mem_cons.1 hall
    rw [List.map_cons, htile.statement, attributesIn_cons_attribute hinner, ih hall, List.filterMap_cons]
    cases Attribute.ofText? l.text <;> rfl
  | other htile _ ih =>
    obtain ⟨hfirst, hall⟩ := List.forall_mem_cons.1 hall
    rw [List.map_cons, attributesIn_cons_other htile hfirst, ih hall]

/-- What is read of tight layouts. -/
def readings (ls : List AttributeLayout) : List Attribute := ls.filterMap fun l => Attribute.ofText? l.tight.text

theorem LaidOut.isGrammatical (h : LaidOut inner tiles ls) : ∀ l ∈ ls, l.IsGrammatical := by
  induction h with
  | nil => exact List.forall_mem_nil _
  | listed htile _ _ ih => exact List.forall_mem_cons.2 ⟨htile.grammatical, ih⟩
  | other _ _ ih => exact ih

/-- **Plain layouts are read like tight ones**, one after the other. -/
theorem LaidOut.attributesIn_of_plain (h : LaidOut inner tiles ls) (hall : AllLaidOut tiles) (hplain : ∀ l ∈ ls, l.IsPlain) :
    attributesIn inner (tiles.map Tile.statement) = readings ls := by
  rw [h.attributesIn_eq hall]
  exact List.filterMap_congr fun l hl => AttributeLayout.ofText?_plain (h.isGrammatical l hl) (hplain l hl)

end Tile

end Source

namespace SourceUnit

open Source

/-- **What the attributes of a source declare is told by their tokens** wherever the layouts are plain: the package
by the inner ones, and by the outer ones of its stretch whether an item is a model. -/
structure IsToldByTokens (cs : List Char) (blocks : List Block) (tail : List Tile) : Prop where
  layouts : ∀ tile ∈ blocks.flatMap Block.tiles ++ tail, ∀ text,
    tile.statement = .innerAttribute text ∨ tile.statement = .outerAttribute text →
      ∃ l, tile.IsAttribute l ∧ l.IsReadByTokens
  package : ∃ ls, Tile.LaidOut true (blocks.flatMap Block.tiles ++ tail) ls ∧ ((∀ l ∈ ls, l.IsPlain) →
    (ofCharacters cs).innerAttributes = Tile.readings ls ∧
      (ofCharacters cs).package = declaredPackage? (Tile.readings ls))
  items : ∀ b ∈ blocks, ∀ i ∈ b.item?, ∃ ls, Tile.LaidOut false b.stretch ls ∧ ((∀ l ∈ ls, l.IsPlain) →
    i.attributes = Tile.readings ls ∧ (i.isModel = true ↔ (∃ fields, i.kind = .struct fields) ∧
      ∃ l ∈ ls, l.arguments.IsStandard ∧ l.meaning.name = modelAttribute))

/-- The attribute for models among tight layouts. -/
theorem exists_model_iff {ls : List AttributeLayout} (h : ∀ l ∈ ls, l.IsGrammatical) :
    (∃ a ∈ Tile.readings ls, a.name = modelAttribute) ↔
      ∃ l ∈ ls, l.arguments.IsStandard ∧ l.meaning.name = modelAttribute := by
  constructor
  · rintro ⟨a, ha, hname⟩
    obtain ⟨l, hl, hread⟩ := List.mem_filterMap.1 ha
    by_cases hstandard : l.arguments.IsStandard
    · rw [AttributeLayout.ofText?_tight (h l hl) hstandard] at hread
      obtain rfl := Option.some.inj hread
      exact ⟨l, hl, hstandard, hname⟩
    · have hbracket := AttributeLayout.exists_bracket_of_read (h l hl) hstandard hread
      rw [hname] at hbracket
      exact absurd hbracket (by decide)
  · rintro ⟨l, hl, hstandard, hname⟩
    exact ⟨l.meaning, List.mem_filterMap.2 ⟨l, hl, AttributeLayout.ofText?_tight (h l hl) hstandard⟩, hname⟩

/-- **The layout of attributes does not matter**, as long as it is plain. -/
theorem attributes_by_tokens {cs : List Char} (hwell : (ofCharacters cs).syntaxErrors = []) : ∃ blocks tail,
    IsCutInto cs blocks tail ∧ (ofCharacters cs).items = blocks.filterMap Block.item? ∧
      IsToldByTokens cs blocks tail := by
  obtain ⟨blocks, tail, hcut, hitems, hstatements, hread⟩ := exists_blocks hwell
  have hall : Tile.AllLaidOut (blocks.flatMap Block.tiles ++ tail) := by
    intro tile htile text hs
    obtain ⟨c, c', hc, htile⟩ := hread tile htile
    exact htile.exists_layout hc hs
  refine ⟨blocks, tail, hcut, hitems, fun tile htile text hs => ?_, ?_, fun b hb i hi => ?_⟩
  · obtain ⟨l, hl⟩ := hall tile htile text hs
    exact ⟨l, hl, hl.grammatical.isReadByTokens⟩
  · obtain ⟨ls, hls⟩ := Tile.exists_laidOut true (blocks.flatMap Block.tiles ++ tail)
    refine ⟨ls, hls, fun hplain => ?_⟩
    have hinner : (ofCharacters cs).innerAttributes = Tile.readings ls := by
      rw [← hls.attributesIn_of_plain hall hplain, hstatements]
      rfl
    exact ⟨hinner, congrArg declaredPackage? hinner⟩
  · obtain ⟨ls, hls⟩ := Tile.exists_laidOut false b.stretch
    have hstretch : Tile.AllLaidOut b.stretch := fun tile htile => hall tile
      (List.mem_append_left _ (List.mem_flatMap.2 ⟨b, hb, List.mem_append_left _ htile⟩))
    refine ⟨ls, hls, fun hplain => ?_⟩
    have hattributes : i.attributes = Tile.readings ls :=
      (Block.of_item? hi).1.trans (hls.attributesIn_of_plain hstretch hplain)
    exact ⟨hattributes, by rw [isModel_iff, hattributes, exists_model_iff hls.isGrammatical]⟩

/-- A package that is named, and two models, with white space between the tokens of their attributes. -/
def spacious : List Char :=
  "#![ package ( shop ) ]\n# [ model ( a ) ] struct A;\n#[ // lost\n model] struct B;\n#[model] struct C;".toList

/-- The package and two models are read; the third has a comment in its attribute. -/
theorem attributes_by_tokens_spacious : (ofCharacters spacious).syntaxErrors = [] ∧
    (ofCharacters spacious).package = some "shop" ∧
    ((ofCharacters spacious).items.map fun i => (i.name, i.isModel)) = [("A", true), ("B", false), ("C", true)] ∧
    ∃ blocks tail, IsCutInto spacious blocks tail ∧
      (ofCharacters spacious).items = blocks.filterMap Block.item? ∧ IsToldByTokens spacious blocks tail := by
  have hparsed : (ofCharacters spacious).syntaxErrors = [] ∧ (ofCharacters spacious).package = some "shop" ∧
      ((ofCharacters spacious).items.map fun i => (i.name, i.isModel)) =
        [("A", true), ("B", false), ("C", true)] := by
    delta spacious
    rw [String.toList_ofList]
    decide +kernel
  obtain ⟨blocks, tail, htold⟩ := attributes_by_tokens hparsed.1
  exact ⟨hparsed.1, hparsed.2.1, hparsed.2.2, blocks, tail, htold⟩

/-- The attribute for models with a comment before its path. -/
def commented : AttributeLayout where
  hash := ⟨.punctuation, [], "#"⟩
  mark := none
  opening := ⟨[], ⟨.punctuation, [], "["⟩⟩
  path := [⟨[⟨.comment, [], "/* c */"⟩], ⟨.word, [' '], "model"⟩⟩]
  arguments := .none
  closing := ⟨[], ⟨.punctuation, [], "]"⟩⟩

theorem isGrammatical_commented : commented.IsGrammatical where
  hash := rfl
  mark m hm := absurd hm (by simp [commented])
  opening := ⟨rfl, .tight commented.opening⟩
  path_ne_nil := List.cons_ne_nil _ _
  path := List.forall_mem_singleton.2 ⟨.inr (by decide), List.forall_mem_singleton.2 (.block [' ', 'c', ' ']), by decide⟩
  arguments := trivial
  closing := ⟨rfl, .tight commented.closing⟩

/-- **A comment in an attribute matters**: the path is read with it, and the model is lost. -/
theorem not_forall_layouts_alike : ¬ ∀ (cs : List Char) (l : AttributeLayout), (ofCharacters cs).syntaxErrors = [] →
    l.IsGrammatical → l.lexemes <+: (tokens cs).map Token.bare →
      Attribute.ofText? l.text = Attribute.ofText? l.tight.text := by
  intro hall
  have hparsed : (ofCharacters "#[/* c */ model] struct A;".toList).syntaxErrors = [] ∧
      commented.lexemes <+: (tokens "#[/* c */ model] struct A;".toList).map Token.bare := by
    rw [String.toList_ofList]
    decide +kernel
  have hsame := hall _ commented hparsed.1 isGrammatical_commented hparsed.2
  exact absurd hsame (by decide +kernel)

end SourceUnit

end ModelPool
