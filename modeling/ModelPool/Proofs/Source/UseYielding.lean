import ModelPool.Proofs.Source.Tiling
import ModelPool.Proofs.Source.UseTrees

/-!
# Proofs/Source/UseYielding — `use` trees are read as they are written

What the readers of paths and trees pass over, if it holds no comment, is written in the way that the result
says.

* `yields_useTree` — a tree is read as it is written.
-/

namespace ModelPool.Source

open Lexeme Text

/-! ## Places without comments between them -/

namespace Cursor

variable {c d e : Cursor} {t : Token}

/-- The lexemes between this place and a later one. -/
def passing (c later : Cursor) : List Lexeme := (c.between later).map Token.bare

/-- **No comment and no error** stands between the two places. -/
structure Clear (c later : Cursor) : Prop where
  errors : later.errors = c.errors
  plain : ∀ t ∈ c.between later, t.isComment = false

theorem passing_self (c : Cursor) : c.passing c = [] := by
  rw [passing, between, Nat.sub_self, List.take_zero, List.map_nil]

/-- **Clear ways are clear on both parts.** -/
theorem Clear.split (h : c.Clear e) (hd : c.Precedes d) (he : d.Precedes e) :
    c.Clear d ∧ d.Clear e ∧ c.passing e = c.passing d ++ d.passing e := by
  have hbetween := hd.between_trans he
  have hplain := h.plain
  rw [hbetween] at hplain
  obtain ⟨hfirst, hsecond⟩ := List.forall_mem_append.1 hplain
  have herrors := hd.errors_eq he h.errors
  refine ⟨⟨herrors, hfirst⟩, ⟨h.errors.trans herrors.symm, hsecond⟩, ?_⟩
  rw [passing, hbetween, List.map_append]
  rfl

/-- The token ahead is the first on a clear way. -/
theorem Clear.step (h : c.Clear e) (ht : c.ahead? = some t) (he : c.forward.Precedes e) :
    c.forward.Clear e ∧ c.passing e = t.bare :: c.forward.passing e := by
  obtain ⟨hfirst, hsecond, hpassing⟩ := h.split c.precedes_forward he
  obtain ⟨comments, hpassed, hcomments, -⟩ := exists_passed_forward ht
  have hnil : comments = [] := by
    refine List.eq_nil_iff_forall_not_mem.2 fun u hu => ?_
    have hplain := hfirst.plain u (by rw [hpassed.between_eq]; exact List.mem_append_left _ hu)
    exact absurd (hcomments u hu) (by simp [hplain])
  refine ⟨hsecond, ?_⟩
  rw [hpassing, passing, hpassed.between_eq, hnil]
  rfl

/-- The text of a clear way is that of its lexemes. -/
theorem Clear.text_eq (h : c.Clear d) : Token.spanned (c.upTo d) = spanned (c.passing d) := by
  have hkept : (c.between d).dropWhile Token.isComment = c.between d := by
    cases hbetween : c.between d with
    | nil => rfl
    | cons t ts => exact List.dropWhile_cons_of_neg (by simp [h.plain t (by simp [hbetween])])
  rw [upTo_eq_between, hkept, Token.spanned_eq]
  rfl

/-- White space stands before each lexeme of a text. -/
theorem areSpaced_tokensFrom (p : Position) (cs : List Char) : AreSpaced ((tokensFrom p cs).map Token.bare) := by
  intro l hl x hx
  obtain ⟨t, ht, rfl⟩ := List.mem_map.1 hl
  obtain ⟨k, hk, hget⟩ := List.getElem_of_mem ht
  obtain ⟨q, cs', hdrop⟩ := exists_tokensFrom_drop p cs k
  rw [List.drop_eq_getElem_cons hk, hget] at hdrop
  obtain ⟨-, -, -, -, -, -, hspace, -⟩ := exists_first hdrop.symm
  exact isBlank_of_isSpace (List.all_eq_true.1 hspace x hx)

theorem IsCut.areSpaced (hc : c.IsCut) (d : Cursor) : AreSpaced (c.passing d) := by
  obtain ⟨p, cs, hrest⟩ := hc
  intro l hl
  obtain ⟨t, ht, rfl⟩ := List.mem_map.1 hl
  exact areSpaced_tokensFrom p cs _ (List.mem_map_of_mem (hrest ▸ List.mem_of_mem_take ht))

end Cursor

theorem Token.isWord_bare {t : Token} (h : t.kind = .word) : t.bare.IsWord := ⟨h, t.isWord h⟩

/-! ## Paths -/

namespace Reader

variable {n : Nat} {c : Cursor} {s : String}

theorem exists_token_of_textOf (hs : s ≠ "") (h : textOf c.ahead? = s) :
    ∃ t, c.ahead? = some t ∧ t.bare.text = s := by
  obtain ⟨t, ht⟩ := exists_ahead?_of_textOf hs h
  exact ⟨t, ht, by simpa [textOf, ht, Token.bare] using h⟩

/-- What is yielded lies ahead. -/
theorem Yields.moving {α : Type} {m : Reader α} {Q : α → Cursor → Prop} [hm : Moves m] (h : Yields m c Q) :
    Yields m c fun a d => c.Precedes d ∧ Q a d :=
  fun a d hrun => ⟨hm.precedes hrun, h a d hrun⟩

/-- A sign that has to be ahead is passed over. -/
theorem yields_expect_token {Q : Unit → Cursor → Prop} (hs : s ≠ "")
    (h : ∀ t, c.ahead? = some t → t.bare.text = s → Q () c.forward) : Yields (expect s) c Q :=
  yields_expect fun htext => by
    obtain ⟨t, ht, hbare⟩ := exists_token_of_textOf hs htext
    exact h t ht hbare

/-- Types in angle brackets are one part of a path. -/
theorem yields_typeArguments_part : Yields (typeArguments n) c fun _ d => c.Clear d → IsPart (c.passing d) := by
  cases n with
  | zero => exact yields_failure
  | succ n =>
    unfold typeArguments
    refine yields_bind (yields_expect_token (by decide) fun opening hopening hopen => ?_)
    have hlist : Yields (list1 ">" n (typeArgument n)) c.forward fun _ d =>
        c.Clear d → IsPart (c.passing d) := by
      unfold list1
      refine yields_past fun found e he => ?_
      split
      · exact yields_failure
      · refine yields_bind (yields_expect_token (by decide) fun closing hclosing hclose => yields_pure fun hclear => ?_)
        obtain ⟨hclear, hpassing⟩ := hclear.step hopening (he.trans e.precedes_forward)
        obtain ⟨-, hclear, hinner⟩ := hclear.split he e.precedes_forward
        obtain ⟨-, hlast⟩ := hclear.step hclosing (Cursor.Precedes.refl _)
        rw [hpassing, hinner, hlast, Cursor.passing_self]
        exact .angle hopen hclose
    exact yields_bind (hlist.imp fun _ _ h => yields_pure h)

/-- **Parts behind colons** are read. -/
theorem yields_usePathRest : Yields (usePathRest n) c fun _ d => c.Clear d → ArePartsBehind (c.passing d) := by
  induction n generalizing c with
  | zero => exact yields_failure
  | succ n ih =>
    unfold usePathRest
    refine yields_bind (yields_textPair ?_)
    dsimp only
    refine yields_if (fun hahead => ?_) fun _ => yields_pure fun _ => ?_
    · obtain ⟨colons, hcolons, htext⟩ := exists_token_of_textOf (c := c) (s := "::") (by decide) (by simp_all)
      -- one more part, and the parts behind it
      have hrest : ∀ e, c.forward.Precedes e → (c.forward.Clear e → IsPart (c.forward.passing e)) →
          Yields (usePathRest n) e fun _ d => c.Clear d → ArePartsBehind (c.passing d) := by
        intro e he hpart
        refine ih.moving.imp fun _ d hd hclear => ?_
        obtain ⟨hclear, hpassing⟩ := hclear.step hcolons (he.trans hd.1)
        obtain ⟨hfirst, hsecond, hsplit⟩ := hclear.split he hd.1
        rw [hpassing, hsplit]
        exact .cons htext (hpart hfirst) (hd.2 hsecond)
      refine yields_bind (yields_skip (yields_if (fun _ => ?_) fun _ => ?_))
      · exact yields_bind (yields_typeArguments_part.moving.imp fun _ e he => hrest e he.1 he.2)
      · refine yields_bind (yields_take fun word hword hkind => hrest _ (Cursor.precedes_forward _) fun hclear => ?_)
        obtain ⟨-, hpassing⟩ := hclear.step hword (Cursor.Precedes.refl _)
        rw [hpassing, Cursor.passing_self]
        exact .word (Token.isWord_bare hkind)
    · rw [Cursor.passing_self]
      exact .nil

/-- **A path** is read. -/
theorem yields_usePath : Yields (usePath n) c fun _ d => c.Clear d → IsAnyPath (c.passing d) := by
  unfold usePath
  refine yields_bind (yields_kind (yields_bind (yields_kind (yields_if (fun hkind => ?_) fun _ => ?_))))
  · obtain ⟨t, ht, hkind⟩ : ∃ t, c.ahead? = some t ∧ (t.kind = .word ∨ t.kind = .variable) := by
      cases ht : c.ahead? with
      | none => simp [ht] at hkind
      | some t => exact ⟨t, rfl, by simpa [ht] using hkind⟩
    refine yields_bind (yields_skip (yields_usePathRest.moving.imp fun _ d hd hclear => ?_))
    obtain ⟨hclear, hpassing⟩ := hclear.step ht hd.1
    rw [hpassing]
    exact hkind.elim (fun hword => .part (.word (Token.isWord_bare hword)) (hd.2 hclear))
      fun hvariable => .macroVariable hvariable (hd.2 hclear)
  · refine yields_bind (yields_optional (fun htext => ?_) fun _ => ?_)
    · obtain ⟨opening, hopening, hopen⟩ := exists_token_of_textOf (by decide) htext
      -- from the closing bracket on
      have hclosing : ∀ e, c.forward.Precedes e → Yields (do expect ">"; usePathRest n) e fun _ d =>
          c.Clear d → IsAnyPath (c.passing d) := by
        intro e he
        refine yields_bind (yields_expect_token (by decide) fun closing hclosing hclose => ?_)
        refine yields_usePathRest.moving.imp fun _ d hd hclear => ?_
        obtain ⟨hclear, hpassing⟩ := hclear.step hopening (he.trans (e.precedes_forward.trans hd.1))
        obtain ⟨-, hclear, hinner⟩ := hclear.split he (e.precedes_forward.trans hd.1)
        obtain ⟨hclear, hlast⟩ := hclear.step hclosing hd.1
        have hshape : c.passing d = (opening.bare :: (c.forward.passing e ++ [closing.bare])) ++ e.forward.passing d := by
          rw [hpassing, hinner, hlast]
          simp
        rw [hshape]
        exact .part (.angle hopen hclose) (hd.2 hclear)
      rw [if_pos rfl]
      refine yields_past fun _ d hd => yields_bind (yields_optional (fun _ => ?_) fun _ => ?_)
      · exact yields_past fun _ e he => hclosing e (hd.trans (d.precedes_forward.trans he))
      · exact hclosing d hd
    · rw [if_neg (by decide)]
      exact yields_usePathRest.imp fun _ _ h hclear => .tail (h hclear)

/-! ## Trees -/

/-- A closing sign that is missing is an error. -/
theorem yields_close_token (hs : s ≠ "") : Yields (close s) c fun _ d => c.Clear d →
    ∃ t, c.ahead? = some t ∧ t.bare.text = s ∧ c.passing d = [t.bare] := by
  unfold close
  refine yields_bind (yields_atEnd (yields_if (fun _ => yields_modify fun hclear => ?_) fun _ => ?_))
  · have hlength := congrArg List.length hclear.errors
    simp [c.errors_passComments] at hlength
  · refine yields_expect_token hs fun t ht htext hclear => ⟨t, ht, htext, ?_⟩
    rw [(hclear.step ht (Cursor.Precedes.refl _)).2, Cursor.passing_self]

section Trees

variable {tree : Reader UseTree} [Moves tree]
  (htree : ∀ {c : Cursor}, c.IsCut → Yields tree c fun t d => c.Clear d → t.Spells (c.passing d))

include htree

/-- **Trees with commas between them** are read. -/
theorem yields_entries_trees (hc : c.IsCut) :
    Yields (entries s tree n) c fun ts d => c.Clear d → UseTree.SpellsAll ts (c.passing d) := by
  induction n generalizing c with
  | zero => exact yields_failure
  | succ n ih =>
    unfold entries
    refine yields_bind (yields_closes fun _ => yields_if (fun _ => yields_pure fun _ => ?_) fun _ => ?_)
    · rw [Cursor.passing_self]
      exact .nil
    · refine yields_bind ((htree hc).moving.imp fun t d hd => yields_bind (yields_optional (fun htext => ?_) fun _ => ?_))
      · obtain ⟨comma, hcomma, htext⟩ := exists_token_of_textOf (by decide) htext
        have hforward := hd.1.trans d.precedes_forward
        refine yields_bind ((ih (hc.of_precedes hforward)).moving.imp fun ts e he => yields_pure fun hclear => ?_)
        obtain ⟨hfirst, hclear, hsplit⟩ := hclear.split hd.1 (d.precedes_forward.trans he.1)
        obtain ⟨hclear, hpassing⟩ := hclear.step hcomma he.1
        rw [hsplit, hpassing]
        exact .cons (hd.2 hfirst) htext (he.2 hclear)
      · exact yields_pure fun hclear => .last (hd.2 hclear)

/-- **A list** is read behind the brace that opens it. -/
theorem yields_list_trees (hc : c.IsCut) : Yields (list closeBrace n tree) c fun ts d => c.Clear d →
    ∃ inner closing, c.passing d = inner ++ [closing] ∧ closing.text = closeBrace ∧
      (UseTree.SpellsAll ts inner ∨ ts = [] ∧ ∃ comma, inner = [comma] ∧ comma.text = ",") := by
  unfold list
  refine yields_bind (yields_optional (fun htext => ?_) fun _ => ?_)
  · obtain ⟨comma, hcomma, htext⟩ := exists_token_of_textOf (by decide) htext
    refine yields_bind (yields_pure (yields_bind ((yields_close_token (by decide)).moving.imp fun _ d hd => ?_)))
    refine yields_pure fun hclear => ?_
    obtain ⟨hclear, hpassing⟩ := hclear.step hcomma hd.1
    obtain ⟨closing, -, hclose, hlast⟩ := hd.2 hclear
    exact ⟨[comma.bare], closing.bare, by rw [hpassing, hlast]; rfl, hclose, .inr ⟨rfl, _, rfl, htext⟩⟩
  · refine yields_bind ((yields_entries_trees htree hc).moving.imp fun ts d hd => ?_)
    refine yields_bind ((yields_close_token (by decide)).moving.imp fun _ e he => yields_pure fun hclear => ?_)
    obtain ⟨hfirst, hclear, hsplit⟩ := hclear.split hd.1 he.1
    obtain ⟨closing, -, hclose, hlast⟩ := he.2 hclear
    exact ⟨_, closing.bare, by rw [hsplit, hlast], hclose, .inl (hd.2 hfirst)⟩

end Trees

/-- Colons may stand before a star or a brace, and where there is no path they need not. -/
theorem yields_joint {rest : Reader UseTree} {path : List String} {Q : UseTree → Cursor → Prop} (hs : s ≠ "")
    (hsign : s ≠ "::") (hahead : (textOf c.ahead? == "::" && textOf c.forward.ahead? == s ||
      path.isEmpty && textOf c.ahead? == s) = true)
    (h : ∀ d t, c.Precedes d → (c.Clear d → Joins path (c.passing d)) → d.ahead? = some t → t.bare.text = s →
      Yields rest d Q) :
    Yields (if (textOf c.ahead? == "::") = true then skip >>= fun _ => rest else rest) c Q := by
  refine yields_if (fun hcolons => yields_bind (yields_skip ?_)) fun hcolons => ?_
  · have hcolons := beq_iff_eq.1 hcolons
    have hsecond : textOf c.forward.ahead? = s := by simpa [hcolons, hsign.symm] using hahead
    obtain ⟨colons, hcolons, htext⟩ := exists_token_of_textOf (by decide) hcolons
    obtain ⟨t, ht, htext'⟩ := exists_token_of_textOf hs hsecond
    refine h _ t c.precedes_forward (fun hclear => .inl ⟨colons.bare, ?_, htext⟩) ht htext'
    rw [(hclear.step hcolons (Cursor.Precedes.refl _)).2, Cursor.passing_self]
  · obtain ⟨hnil, hfirst⟩ : path = [] ∧ textOf c.ahead? = s := by simpa [hcolons] using hahead
    obtain ⟨t, ht, htext⟩ := exists_token_of_textOf hs hfirst
    exact h c t (Cursor.Precedes.refl _) (fun _ => .inr ⟨c.passing_self, hnil⟩) ht htext

section Parts

variable {d e : Cursor} {t : Token} {path : List String}

/-- A star ends a tree. -/
theorem yields_glob (hc : c.IsCut) (hd : c.Precedes d) (hpath : c.Clear d → IsAnyPath (c.passing d))
    (he : d.Precedes e)
    (hjoint : d.Clear e → Joins (splitPath (String.ofList (Token.spanned (c.upTo d)))) (d.passing e))
    (ht : e.ahead? = some t) (hstar : t.bare.text = "*") :
    Yields (do
      skip
      let whole ← since c
      return UseTree.glob (splitPath (String.ofList whole.toList.dropLast))) e
      fun t f => c.Clear f → t.Spells (c.passing f) := by
  refine yields_bind (yields_skip (yields_bind (yields_since (yields_pure fun hclear => ?_))))
  have htext := hclear.text_eq
  have hspaced := hc.areSpaced e.forward
  obtain ⟨hfirst, hclear, hsplit⟩ := hclear.split hd (he.trans e.precedes_forward)
  obtain ⟨hsecond, hclear, hsplit'⟩ := hclear.split he e.precedes_forward
  obtain ⟨-, hlast⟩ := hclear.step ht (Cursor.Precedes.refl _)
  rw [hfirst.text_eq] at hjoint
  rw [hsplit, hsplit', hlast, Cursor.passing_self] at htext hspaced ⊢
  obtain ⟨path, hpath, hspells, hjoins⟩ := (hpath hfirst).spells_star hspaced hstar (hjoint hsecond)
  rw [String.toList_ofList, htext, ← hpath]
  exact .glob hspells hjoins hstar

/-- A list of trees ends one. -/
theorem yields_list {trees : Reader (List UseTree)} [Moves trees] (hd : c.Precedes d)
    (hpath : c.Clear d → SpellsPath path (c.passing d) []) (he : d.Precedes e)
    (hjoint : d.Clear e → Joins path (d.passing e)) (ht : e.ahead? = some t) (hopen : t.bare.text = openBrace)
    (htrees : Yields trees e.forward fun ts f => e.forward.Clear f →
      ∃ inner closing, e.forward.passing f = inner ++ [closing] ∧ closing.text = closeBrace ∧
        (UseTree.SpellsAll ts inner ∨ ts = [] ∧ ∃ comma, inner = [comma] ∧ comma.text = ",")) :
    Yields (do
      skip
      return UseTree.list path (← trees)) e fun t f => c.Clear f → t.Spells (c.passing f) := by
  refine yields_bind (yields_skip (yields_bind (htrees.moving.imp fun ts f hf => yields_pure fun hclear => ?_)))
  have hlast := e.precedes_forward.trans hf.1
  obtain ⟨hfirst, hclear, hsplit⟩ := hclear.split hd (he.trans hlast)
  obtain ⟨hsecond, hclear, hsplit'⟩ := hclear.split he hlast
  obtain ⟨hclear, hpassing⟩ := hclear.step ht hf.1
  obtain ⟨inner, closing, hlist, hclose, htold⟩ := hf.2 hclear
  rw [hsplit, hsplit', hpassing, hlist]
  rcases htold with htold | ⟨rfl, comma, rfl, hcomma⟩
  · exact .list (hpath hfirst) (hjoint hsecond) hopen htold hclose
  · exact .comma (hpath hfirst) (hjoint hsecond) hopen hcomma hclose

/-- Where neither follows, the path is a leaf, perhaps with a new name. -/
theorem yields_leaf (hd : c.Precedes d) (hpath : c.Clear d → SpellsPath path (c.passing d) []) (hne : path ≠ []) :
    Yields (do
      if ← optional "as" then return UseTree.renamed path (← word)
      else return UseTree.name path) d fun t e => c.Clear e → t.Spells (c.passing e) := by
  refine yields_bind (yields_optional (fun htext => ?_) fun _ => ?_)
  · obtain ⟨keyword, hkeyword, htext⟩ := exists_token_of_textOf (by decide) htext
    rw [if_pos rfl]
    refine yields_bind (yields_take fun newName hnew hkind => yields_pure fun hclear => ?_)
    obtain ⟨hfirst, hclear, hsplit⟩ := hclear.split hd (d.precedes_forward.trans d.forward.precedes_forward)
    obtain ⟨hclear, hpassing⟩ := hclear.step hkeyword d.forward.precedes_forward
    obtain ⟨-, hlast⟩ := hclear.step hnew (Cursor.Precedes.refl _)
    rw [hsplit, hpassing, hlast, Cursor.passing_self]
    exact .renamed (hpath hfirst) hne htext (Token.isWord_bare hkind)
  · rw [if_neg (by decide)]
    exact yields_pure fun hclear => .name (hpath hclear) hne

end Parts

/-- **A tree is read as it is written.** -/
theorem yields_useTree (hc : c.IsCut) : Yields (useTree n) c fun t d => c.Clear d → t.Spells (c.passing d) := by
  induction n generalizing c with
  | zero => exact yields_failure
  | succ n ih =>
    unfold useTree
    refine yields_bind (yields_get (yields_bind (yields_usePath.moving.imp fun _ d hd => ?_)))
    refine yields_bind (yields_since (yields_bind (yields_textPair ?_)))
    dsimp only
    have hpath : c.Clear d → SpellsPath (splitPath (String.ofList (Token.spanned (c.upTo d)))) (c.passing d) [] := by
      intro hclear
      rw [hclear.text_eq]
      exact (hd.2 hclear).spells (hc.areSpaced d)
    refine yields_if (fun hstar => ?_) fun _ => yields_if (fun hbrace => ?_) fun _ =>
      yields_if (fun _ => yields_failure) fun hne => ?_
    · exact yields_joint (by decide) (by decide) hstar fun e star he hjoint hstar htext =>
        yields_glob hc hd.1 hd.2 he hjoint hstar htext
    · refine yields_joint (by decide) (by decide) hbrace fun e opening he hjoint hopening htext => ?_
      have hcut := hc.of_precedes (hd.1.trans (he.trans e.precedes_forward))
      exact yields_list hd.1 hpath he hjoint hopening htext (yields_list_trees ih hcut)
    · exact yields_leaf hd.1 hpath (by simpa using hne)

end Reader

end ModelPool.Source
