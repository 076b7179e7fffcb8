import ModelPool.Proofs.Source.UnitReading
import ModelPool.Proofs.Source.UseYielding

/-!
# Proofs/Source/Uses — the entries of a source

    use a::{b, c::*};        a::b   a::c::*
    use a::b; use a::c::*;   a::b   a::c::*

A `use` declaration without comments inside stands for one entry at each leaf of its tree, on its own line.
Every declaration that is written in words and signs is read as the tree that it is written as, so a list may be
written out.

* `yields_visibility` — a visibility is read as it is written.
* `Tile.IsReadAt.isUse` — so is a declaration.
* `SourceUnit.IsMadeOf.contents` — the entries of a source that holds declarations only.
* `SourceUnit.uses_are_leaves` — the entries of any source.
-/

namespace ModelPool

namespace Source

open Lexeme Reader

/-! ## Declarations that are read -/

namespace Reader

variable {n N : Nat} {c : Cursor} {ls ls' : List Lexeme}

/-- What is read from the lexemes ahead is all that is yielded. -/
theorem Yields.of_reads {α : Type} {m : Reader α} {a : α} {Q : α → Cursor → Prop} (h : ∀ N, Reads N m ls a ls')
    (hc : c.lexemes = ls) (hq : ∀ d : Cursor, d.lexemes = ls' → Q a d) : Yields m c Q := by
  intro b d hrun
  obtain ⟨e, hrun', -, he, -⟩ := h _ c rfl hc
  obtain ⟨rfl, rfl⟩ := Prod.mk.inj (Option.some.inj (hrun.symm.trans hrun'))
  exact hq _ he

/-- A scope is read as it is written behind `pub`. -/
theorem yields_visibilityScope {l : Lexeme} (hl : l.text = "pub") :
    Yields (visibilityScope n) c fun _ d => c.Clear d → IsVisibility (l :: c.passing d) := by
  unfold visibilityScope
  refine yields_bind (yields_expect_token (by decide) fun opening hopening hopen => ?_)
  refine yields_bind (yields_optional (fun htext => ?_) fun _ => ?_)
  · obtain ⟨keyword, hkeyword, htext⟩ := exists_token_of_textOf (by decide) htext
    rw [if_pos rfl]
    refine yields_past fun _ d hd => yields_expect_token (by decide) fun closing hclosing hclose hclear => ?_
    have hrest := hd.trans d.precedes_forward
    obtain ⟨hclear, hfirst⟩ := hclear.step hopening (c.forward.precedes_forward.trans hrest)
    obtain ⟨hclear, hsecond⟩ := hclear.step hkeyword hrest
    obtain ⟨-, hclear, hinner⟩ := hclear.split hd d.precedes_forward
    obtain ⟨-, hlast⟩ := hclear.step hclosing (Cursor.Precedes.refl _)
    rw [hfirst, hsecond, hinner, hlast, Cursor.passing_self]
    exact .path hl hopen htext hclose
  · rw [if_neg (by decide)]
    refine yields_bind (yields_take fun word hword _ => ?_)
    refine yields_if (fun _ => yields_bind yields_failure) fun hmem => ?_
    refine yields_expect_token (by decide) fun closing hclosing hclose hclear => ?_
    have hrest := c.forward.forward.precedes_forward
    obtain ⟨hclear, hfirst⟩ := hclear.step hopening (c.forward.precedes_forward.trans hrest)
    obtain ⟨hclear, hsecond⟩ := hclear.step hword hrest
    obtain ⟨-, hlast⟩ := hclear.step hclosing (Cursor.Precedes.refl _)
    rw [hfirst, hsecond, hlast, Cursor.passing_self]
    exact .scope hl hopen (by simpa [Token.bare] using hmem) hclose

/-- **A visibility is read as it is written.** -/
theorem yields_visibility : Yields (visibility n) c fun _ d => c.Clear d → IsVisibility (c.passing d) := by
  unfold visibility
  refine yields_bind (yields_textPair ?_)
  dsimp only
  refine yields_if (fun hpub => ?_) fun _ => yields_if (fun _ => ?_) fun _ => yields_pure fun _ => ?_
  · obtain ⟨l, hl, htext⟩ := exists_token_of_textOf (c := c) (s := "pub") (by decide) (beq_iff_eq.1 hpub)
    refine yields_bind (yields_skip (yields_bind (yields_orElse ?_ (yields_pure (yields_pure fun hclear => ?_)))))
    · refine (yields_visibilityScope htext).moving.imp fun _ d hd => yields_pure fun hclear => ?_
      obtain ⟨hclear, hpassing⟩ := hclear.step hl hd.1
      rw [hpassing]
      exact hd.2 hclear
    · rw [(hclear.step hl (Cursor.Precedes.refl _)).2, Cursor.passing_self]
      exact .pub htext
  · refine yields_optional (fun hcrate hclear => ?_) fun _ _ => ?_
    · obtain ⟨l, hl, htext⟩ := exists_token_of_textOf (by decide) hcrate
      rw [(hclear.step hl (Cursor.Precedes.refl _)).2, Cursor.passing_self]
      exact .crate htext
    · rw [Cursor.passing_self]
      exact .none
  · rw [Cursor.passing_self]
    exact .none

theorem textOf_ahead? {l : Lexeme} (hc : c.lexemes = ls) (hl : visible ls = l :: ls') : textOf c.ahead? = l.text := by
  obtain ⟨t, ht, rfl⟩ := bare_of_ahead? hc hl
  rw [ht]
  rfl

/-- A `use` declaration is read where its keyword is ahead. -/
theorem yields_declaration_use {space : List Char} {h : Heading} (hc : c.lexemes = ofName space "use" :: ls) :
    Yields (declaration? (n + 2) h) c fun found _ => ∃ tree, found = some (.use h.line tree) := by
  have hfunction : ∀ N, Reads N (atFunction (n + 1)) (ofName space "use" :: ls) false (ofName space "use" :: ls) :=
    fun _ => reads_atFunction_keyword (by simp [functionModifiers]) (by simp) (by simp) ls
  have hrules : ∀ N, Reads N atMacroRules (ofName space "use" :: ls) false (ofName space "use" :: ls) :=
    fun _ => reads_atMacroRules rfl (by simp)
  have htext : textOf c.ahead? = "use" := textOf_ahead? hc rfl
  unfold declaration?
  refine yields_bind (yields_textPair (yields_bind (yields_get ?_)))
  refine yields_bind (.of_reads hfunction hc fun d hd => ?_)
  rw [if_neg (by decide)]
  refine yields_bind (.of_reads hrules hd fun e he => ?_)
  rw [if_neg (by decide)]
  dsimp only
  rw [htext]
  refine yields_map fun s f hrun => ?_
  obtain ⟨-, tree, -, -, -, -, rfl⟩ := exists_of_useDeclaration hrun
  exact ⟨tree, rfl⟩

/-- **A statement with this keyword** behind a visibility is a `use` declaration. -/
theorem yields_statement_use {space : List Char} {front : List Lexeme} {expressions : Bool}
    (hfront : IsVisibility front) (hplain : ∀ l ∈ front, l.IsPlain ∧ l.text ≠ "in")
    (hc : c.lexemes = front ++ ofName space "use" :: ls) :
    Yields (statement (n + 3) expressions) c fun s _ => ∃ line tree, s = .use line tree := by
  obtain ⟨l, q, hl, hkind, hhash, hmark⟩ := exists_visible_use space hfront hplain ls
  have htext := textOf_ahead? hc hl
  obtain ⟨t, ht, rfl⟩ := bare_of_ahead? hc hl
  have hkind : t.kind = .word := hkind
  unfold statement
  refine yields_bind (yields_line (yields_bind (yields_textPair ?_)))
  dsimp only
  rw [htext, if_neg (by simpa using hhash)]
  refine yields_bind (yields_kind ?_)
  rw [if_neg (by simp [ht, hkind, hmark])]
  refine yields_bind (.of_reads (fun _ => reads_visibility hfront hplain ls) hc fun d hd => ?_)
  refine yields_if (fun _ => ?_) fun _ => ?_
  · refine yields_bind ((yields_declaration_use hd).imp fun found _ hfound => ?_)
    obtain ⟨tree, rfl⟩ := hfound
    exact yields_pure ⟨_, tree, rfl⟩
  · refine yields_bind ((yields_declaration_use hd).imp fun found _ hfound => ?_)
    obtain ⟨tree, rfl⟩ := hfound
    exact yields_pure ⟨_, tree, rfl⟩

end Reader

/-! ## Declarations in a source -/

/-- The entries of a statement: one at each leaf, if it is a `use` declaration. -/
def Statement.leafEntries : Statement → List UseEntry
  | use line tree => tree.leaves.map (UseLeaf.entry line)
  | comment _ | innerAttribute _ | outerAttribute _ | impl _ | item _ | other => []

theorem usesIn_eq_flatMap (ss : List Statement) : usesIn ss = ss.flatMap Statement.leafEntries := by
  refine List.flatMap_congr fun s _ => ?_
  cases s with
  | use line tree => exact tree.entries_eq_map line
  | comment | innerAttribute | outerAttribute | impl | item | other => rfl

/-- **What a `use` declaration is read from** is written as one. -/
theorem Reader.isUse_passing {n : Nat} {c d e f c' : Cursor} {isPublic : Bool} {tree : UseTree} (hc : c.IsCutBehind)
    (hvisibility : (visibility (n + 1)).run c = some (isPublic, d)) (hkeyword : (expect "use").run d = some ((), e))
    (htree : (useTree n).run e = some (tree, f)) (hend : (close ";").run f = some ((), c')) (hclear : c.Clear c') :
    IsUse tree (c.passing c') := by
  have hsign : Yields (expect "use") d fun _ e =>
      ∃ keyword, d.ahead? = some keyword ∧ keyword.bare.text = "use" ∧ e = d.forward :=
    yields_expect_token (by decide) fun keyword hkeyword htext => ⟨keyword, hkeyword, htext, rfl⟩
  obtain ⟨keyword, hahead, htext, rfl⟩ := hsign _ _ hkeyword
  have hd : c.Precedes d := Moves.precedes hvisibility
  have hf : d.forward.Precedes f := Moves.precedes htree
  have hlast : f.Precedes c' := Moves.precedes hend
  obtain ⟨hfront, hclear, hsplit⟩ := hclear.split hd (d.precedes_forward.trans (hf.trans hlast))
  obtain ⟨hclear, hpassing⟩ := hclear.step hahead (hf.trans hlast)
  obtain ⟨hbody, hclear, hsplit'⟩ := hclear.split hf hlast
  obtain ⟨semicolon, -, hsemicolon, hpassing'⟩ := yields_close_token (by decide) _ _ hend hclear
  have hcut : d.forward.IsCut := (hc.of_precedes hd).forward hahead
  rw [hsplit, hpassing, hsplit', hpassing']
  exact .intro (yields_visibility _ _ hvisibility hfront) htext (yields_useTree hcut _ _ htree hbody) hsemicolon

/-- **A `use` declaration without comments** is read as it is written, on the line that it begins on. -/
theorem Tile.IsReadAt.isUse {fuel : Nat} {c c' : Cursor} {tile : Tile} {line : Nat} {tree : UseTree}
    (h : tile.IsReadAt fuel c c') (hc : c.IsCutBehind) (huse : tile.statement = .use line tree) :
    (tile.tokens.head?.map fun t => t.start.line) = some line ∧
      ((∀ t ∈ tile.tokens, t.isComment = false) → IsUse tree (tile.tokens.map Token.bare)) := by
  have hrest' := h.rest_eq
  have hne := (h.covers hc).ne_nil
  cases h with
  | comment _ _ => exact absurd huse (by simp)
  | @statement _ t r s hrest ht hread herrors =>
    subst huse
    cases Reader.isSorted_statement _ _ hread with
    | lasting hs => exact hs.elim
    | use hvisibility hkeyword htree hend =>
      have hfirst : (c.between c').head? = some t := by
        rw [hrest] at hrest'
        rw [← List.head?_append_of_ne_nil _ hne, ← hrest']
        rfl
      have hahead : c.ahead? = some t := by
        rw [Cursor.ahead?_of_head (by simp [hrest, ht]), hrest]
        rfl
      refine ⟨by rw [hfirst, Cursor.nextLine, hahead]; rfl, fun hplain => ?_⟩
      exact Reader.isUse_passing hc hvisibility hkeyword htree hend ⟨herrors, hplain⟩

/-- **What begins like a `use` declaration is one.** -/
theorem Tile.IsReadAt.exists_use {fuel : Nat} {c c' : Cursor} {tile : Tile} {front r : List Lexeme} {keyword : Lexeme}
    (h : tile.IsReadAt (fuel + 3) c c') (hfront : IsVisibility front) (hplain : ∀ l ∈ front, l.IsPlain ∧ l.text ≠ "in")
    (hkind : keyword.kind = .word) (hkeyword : keyword.text = "use")
    (htokens : tile.tokens.map Token.bare = front ++ keyword :: r) : ∃ line tree, tile.statement = .use line tree := by
  have hshape : keyword = ofName keyword.space "use" := by rw [ofName, ← hkind, ← hkeyword]
  have hrest := h.rest_eq
  cases h with
  | @comment t _ _ ht =>
    -- the first of these lexemes is no comment
    have hword : t.bare.isComment = false := by
      cases front with
      | nil =>
        obtain ⟨hbare, -⟩ := List.cons.inj htokens
        rw [hbare, hshape]
        rfl
      | cons l front =>
        obtain ⟨hbare, -⟩ := List.cons.inj htokens
        rw [hbare]
        exact (hplain l List.mem_cons_self).1.isComment
    exact absurd ht (Bool.eq_false_iff.1 hword)
  | @statement _ t _ s _ _ hread _ =>
    have hlexemes : c.lexemes = front ++ ofName keyword.space "use" :: (r ++ c'.lexemes) := by
      rw [Cursor.lexemes, hrest, List.map_append, htokens, ← hshape, List.append_assoc]
      rfl
    exact yields_statement_use hfront hplain hlexemes _ _ hread

/-! ## Sources of declarations -/

theorem areSpaced_behind {front r : List Lexeme} {l : Lexeme} (h : AreSpaced (front ++ l :: r).tail) : AreSpaced r := by
  cases front with
  | nil => exact h
  | cons k front => exact (areSpaced_cons.1 (areSpaced_append.1 h).2).2

/-- A declaration is found where it is written. -/
theorem IsUse.finds {n N : Nat} {tree : UseTree} {part ls : List Lexeme} (h : IsUse tree part)
    (hplain : ∀ l ∈ part, l.IsPlain ∧ l.text ≠ "in") (hspaced : AreSpaced part.tail) (hn : part.length + 8 < n) :
    ∃ l done, part = l :: done ∧ l.isComment = false ∧
      Finds N (statement n true) (l :: (done ++ ls)) (fun s => ∃ line, s = .use line tree) ls := by
  cases h with
  | @intro front body keyword semicolon hfront hkeyword htree hend =>
    obtain ⟨hfrontPlain, hbehind⟩ := List.forall_mem_append.1 hplain
    obtain ⟨hkeywordPlain, hbehind⟩ := List.forall_mem_cons.1 hbehind
    obtain ⟨hbody, hsemicolon⟩ := List.forall_mem_append.1 hbehind
    have hshape : keyword = ofName keyword.space "use" := by
      rw [ofName, ← hkeywordPlain.1.isWord (by decide) hkeyword, ← hkeyword]
    have hbodySpaced : AreSpaced body := (areSpaced_append.1 (areSpaced_behind hspaced)).1
    simp only [List.length_append, List.length_cons] at hn
    have hfound := @finds_statement_useTree N n ls keyword.space tree front body semicolon hfront hfrontPlain htree
      (fun l hl => (hbody l hl).1) hbodySpaced (hsemicolon _ List.mem_cons_self).1 hend (by omega)
    rw [← hshape] at hfound
    obtain ⟨l, done, hdone⟩ : ∃ l done, front ++ keyword :: (body ++ [semicolon]) = l :: done :=
      List.exists_cons_of_ne_nil (by simp)
    have hwhole : front ++ keyword :: (body ++ semicolon :: ls) = l :: (done ++ ls) := by
      have hjoined := congrArg (· ++ ls) hdone
      simpa using hjoined
    rw [hdone] at hplain
    rw [hwhole] at hfound
    exact ⟨l, done, hdone, (hplain l List.mem_cons_self).1.isComment, hfound⟩

/-- **Declarations are told one by one.** -/
theorem tells_uses {n N : Nat} {trees : List UseTree} {parts : List (List Lexeme)}
    (hparts : List.Forall₂ IsUse trees parts) (hplain : ∀ l ∈ parts.flatten, l.IsPlain ∧ l.text ≠ "in")
    (hspaced : AreSpaced parts.flatten.tail) (hn : parts.flatten.length + 8 < n) :
    Tells n N parts.flatten fun ss => List.Forall₂ (fun tree s => ∃ line, s = .use line tree) trees ss := by
  induction hparts with
  | nil => exact tells_nil .nil
  | @cons tree part trees parts hpart _ ih =>
    rw [List.flatten_cons] at hplain hspaced hn ⊢
    obtain ⟨hpartPlain, hrest⟩ := List.forall_mem_append.1 hplain
    rw [List.length_append] at hn
    obtain ⟨hpartSpaced, hrestSpaced⟩ : AreSpaced part.tail ∧ AreSpaced parts.flatten.tail := by
      cases part with
      | nil => exact ⟨List.forall_mem_nil _, hspaced⟩
      | cons l part =>
        obtain ⟨hfirst, hothers⟩ := areSpaced_append.1 hspaced
        exact ⟨hfirst, fun l hl => hothers l (List.mem_of_mem_tail hl)⟩
    have hlength : part.length + 8 < n := by omega
    have hothers := ih hrest hrestSpaced (by omega)
    obtain ⟨l, done, rfl, hl, hfound⟩ := hpart.finds hpartPlain hpartSpaced hlength
    refine (tells_statement hl hfound hothers).imp ?_
    rintro _ ⟨s, r, rfl, hs, hr⟩
    exact .cons hs hr

end Source

open Source Lexeme

namespace SourceUnit

/-- **The entries of a source are read from its portions.**  In a portion without errors, the keyword behind a
visibility that names no path makes a `use` declaration; one without comments is read as the tree that it is
written as, on the line that it begins on. -/
structure UsesAreLeaves (cs : List Char) : Prop where
  uses : (ofCharacters cs).uses = (portions cs).flatMap fun p => p.statement.leafEntries
  keyword : ∀ p ∈ portions cs, p.errors = [] → ∀ front keyword r, p.tokens.map Token.bare = front ++ keyword :: r →
    IsVisibility front → (∀ l ∈ front, l.IsPlain ∧ l.text ≠ "in") → keyword.kind = .word → keyword.text = "use" →
    ∃ line tree, p.statement = .use line tree
  isUse : ∀ p ∈ portions cs, p.errors = [] → ∀ line tree, p.statement = .use line tree →
    (p.tokens.head?.map fun t => t.start.line) = some line ∧
      ((∀ t ∈ p.tokens, t.isComment = false) → IsUse tree (p.tokens.map Token.bare))

theorem usesAreLeaves (cs : List Char) : UsesAreLeaves cs where
  uses := by
    have hcs : (ofCharacters cs).uses = usesIn (Source.statements cs).1 := rfl
    rw [hcs, ← (isLaidOut cs).statements, usesIn_eq_flatMap, List.flatMap_map]
  keyword := by
    intro p hp herrors front keyword r hshape hfront hplain hkind hkeyword
    obtain ⟨c, c', -, hread⟩ := exists_isReadAt p hp herrors
    obtain ⟨k, hk⟩ : ∃ k, depthFor (Source.tokens cs) = k + 3 := ⟨_, by unfold depthFor; rfl⟩
    rw [hk] at hread
    exact hread.exists_use hfront hplain hkind hkeyword hshape
  isUse := by
    intro p hp herrors line tree htree
    obtain ⟨c, c', hc, hread⟩ := exists_isReadAt p hp herrors
    exact hread.isUse hc htree

/-- **A source of declarations**, in words and signs. -/
def IsMadeOf (cs : List Char) (trees : List UseTree) : Prop :=
  ∃ parts, List.Forall₂ IsUse trees parts ∧ (tokens cs).map Token.bare = parts.flatten ∧
    ∀ l ∈ parts.flatten, l.IsPlain ∧ l.text ≠ "in"

/-- It is well-formed, and each declaration is read as it is written. -/
theorem IsMadeOf.statements {cs : List Char} {trees : List UseTree} (h : IsMadeOf cs trees) :
    (ofCharacters cs).syntaxErrors = [] ∧
      List.Forall₂ (fun tree s => ∃ line, s = .use line tree) trees (Source.statements cs).1 := by
  obtain ⟨parts, hparts, htokens, hplain⟩ := h
  have hspaced : AreSpaced parts.flatten.tail := by
    obtain ⟨p, cs', hcut⟩ := Cursor.isCutBehind_start cs
    have htail : (Source.tokens cs).tail = tokensFrom p cs' := hcut
    rw [← htokens, ← List.map_tail, htail]
    exact Cursor.areSpaced_tokensFrom p cs'
  have hlength : (Source.tokens cs).length = parts.flatten.length := by rw [← htokens, List.length_map]
  have hn : parts.flatten.length + 8 < depthFor (Source.tokens cs) := by
    rw [depthFor, hlength]
    omega
  obtain ⟨ss, hss, hall⟩ := tells_uses (N := parts.flatten.length) hparts hplain hspaced hn
    (Cursor.start (Source.tokens cs)) (by simp [Cursor.total, Cursor.start, hlength]) htokens
  have hstatements : Source.statements cs = (ss, []) := hss
  have herrors : (ofCharacters cs).syntaxErrors = (Source.statements cs).2 := rfl
  rw [herrors, hstatements]
  exact ⟨rfl, hall⟩

theorem map_content_leafEntries {trees : List UseTree} {ss : List Statement}
    (h : List.Forall₂ (fun tree s => ∃ line, s = .use line tree) trees ss) :
    (ss.flatMap Statement.leafEntries).map UseEntry.content = trees.flatMap fun t => t.leaves.map UseLeaf.content := by
  induction h with
  | nil => rfl
  | @cons tree s trees ss hs _ ih =>
    obtain ⟨line, rfl⟩ := hs
    rw [List.flatMap_cons, List.flatMap_cons, List.map_append, ih, Statement.leafEntries, List.map_map,
      UseLeaf.content_entry]

/-- **Its entries are its leaves**, from left to right. -/
theorem IsMadeOf.contents {cs : List Char} {trees : List UseTree} (h : IsMadeOf cs trees) :
    (ofCharacters cs).uses.map UseEntry.content = trees.flatMap fun t => t.leaves.map UseLeaf.content := by
  have huses : (ofCharacters cs).uses = usesIn (Source.statements cs).1 := rfl
  rw [huses, usesIn_eq_flatMap, map_content_leafEntries h.statements.2]

/-- **The entries of a source are the leaves of its `use` trees.**  Any source is laid out in portions; its entries
are those of its `use` declarations, one at each leaf of their trees, and a well-formed declaration without comments
is read as the tree that it is written as.  Every declaration in words and signs is well-formed.  A path before a
list may be put before each of the trees in it, which changes nothing but lines and lone leaves of `self`. -/
theorem uses_are_leaves (cs : List Char) : IsLaidOut cs ∧ UsesAreLeaves cs ∧
    (∀ trees, IsMadeOf cs trees → (ofCharacters cs).syntaxErrors = [] ∧
      List.Forall₂ (fun tree s => ∃ line, s = .use line tree) trees (Source.statements cs).1) ∧
    (∀ p ps (colons : Lexeme), IsPath p ps → colons.text = "::" → ∀ (t : UseTree) ls, t.Spells ls →
      (∀ l ∈ ls, l.IsPlain) → (∀ l ∈ ls.head?, l.text ≠ "::") → (t.under p).Spells (ps ++ colons :: ls)) ∧
    ∀ cs' p trees, IsMadeOf cs [.list p trees] → IsMadeOf cs' (trees.map (UseTree.under p)) →
      (ofCharacters cs).uses.map UseEntry.content =
          trees.flatMap (fun t => t.leaves.map fun l => (l.below p).content) ∧
        (ofCharacters cs').uses.map UseEntry.content =
          trees.flatMap (fun t => (t.under p).leaves.map UseLeaf.content) ∧
        ∀ t ∈ trees, p = [] ∨ ¬ t.IsSelf →
          (t.leaves.map fun l => (l.below p).content) = (t.under p).leaves.map UseLeaf.content := by
  refine ⟨isLaidOut cs, usesAreLeaves cs, fun _ h => h.statements, ?_, ?_⟩
  · intro p ps colons hp hcolons t ls ht hplain hfirst
    exact ht.under (fun l hl => (hplain l hl).not_isOdd) hfirst hp hcolons
  · intro cs' p trees hlist heach
    refine ⟨?_, ?_, fun t _ h => UseTree.contents_under h⟩
    · rw [hlist.contents, List.flatMap_singleton, UseTree.contents_list]
    · rw [heach.contents, List.flatMap_map]

/-! ### A `self` before a star -/

/-- A declaration with a glob of `self`. -/
def selfGlob : List Char := "use a::\x7bself::*, b as c\x7d;".toList

/-- The path before its trees. -/
def selfGlobPath : List Lexeme := [ofName [' '] "a"]

/-- Its trees, and how they are written. -/
def selfGlobTrees : List (UseTree × List Lexeme) :=
  [(.glob ["self"], [ofName [] "self"] ++ ([colons] ++ [sign [] '*'])),
    (.renamed ["b"] "c", [ofName [' '] "b"] ++ [ofName [' '] "as", ofName [' '] "c"])]

/-- Its lexemes. -/
def selfGlobLexemes : List Lexeme :=
  [] ++ ofName [] "use" :: ((selfGlobPath ++ ([colons] ++ sign [] '\x7b' ::
    (((selfGlobTrees.map Prod.snd).intersperse [sign [] ',']).flatten ++ [sign [] '\x7d']))) ++ [sign [] ';'])

/-- The same with the path before each of the trees. -/
def selfGlobApart : List Char := "use a::self::*;use a:: b as c;".toList

/-- Its lexemes, one declaration each. -/
def selfGlobApartLexemes : List (List Lexeme) :=
  selfGlobTrees.map fun t => [] ++ ofName [] "use" :: ((selfGlobPath ++ colons :: t.2) ++ [sign [] ';'])

theorem isPath_ofName {space : List Char} {s : String} (hs : isWord s.toList = true) :
    IsPath [s] [ofName space s] :=
  have hword : (ofName space s).IsWord := ⟨rfl, hs⟩
  .first hword .nil

theorem spells_selfGlobTrees : ∀ t ∈ selfGlobTrees, t.1.Spells t.2 := by
  have hglob : (UseTree.glob ["self"]).Spells ([ofName [] "self"] ++ ([colons] ++ [sign [] '*'])) :=
    .glob (.words (isPath_ofName (by decide))) (.inl ⟨colons, rfl, rfl⟩) rfl
  have hname : (ofName [' '] "c").IsWord := by decide
  have hrenamed : (UseTree.renamed ["b"] "c").Spells ([ofName [' '] "b"] ++ [ofName [' '] "as", ofName [' '] "c"]) :=
    .renamed (.words (isPath_ofName (by decide))) (List.cons_ne_nil _ _) rfl hname
  exact List.forall_mem_cons.2 ⟨hglob, List.forall_mem_singleton.2 hrenamed⟩

theorem isMadeOf_selfGlob : IsMadeOf selfGlob [.list ["a"] (selfGlobTrees.map Prod.fst)] := by
  have htrees : UseTree.SpellsAll (selfGlobTrees.map Prod.fst)
      ((selfGlobTrees.map Prod.snd).intersperse [sign [] ',']).flatten :=
    .cons (spells_selfGlobTrees _ (.head _)) rfl (.last (spells_selfGlobTrees _ (.tail _ (.head _))))
  have huse : IsUse (.list ["a"] (selfGlobTrees.map Prod.fst)) selfGlobLexemes :=
    .intro .none rfl (.list (.words (isPath_ofName (by decide))) (.inl ⟨colons, rfl, rfl⟩) rfl htrees rfl) rfl
  have hshape : ((tokens selfGlob).map Token.bare = [selfGlobLexemes].flatten) ∧
      ([selfGlobLexemes].flatten.all fun l => decide (l.IsPlain ∧ l.text ≠ "in")) = true := by decide +kernel
  exact ⟨_, .cons huse .nil, hshape.1, fun l hl => of_decide_eq_true (List.all_eq_true.1 hshape.2 l hl)⟩

/-- The declaration is read as its tree, and the glob stands for the path above it. -/
theorem uses_are_leaves_selfGlob : (portions selfGlob).flatMap (fun p => p.tokens) = tokens selfGlob ∧
    (∃ line, (Source.statements selfGlob).1 = [.use line (.list ["a"] (selfGlobTrees.map Prod.fst))]) ∧
    (ofCharacters selfGlob).uses.map UseEntry.content = [(["a"], none, true), (["a", "b"], some "c", false)] ∧
    (ofCharacters selfGlobApart).uses.map UseEntry.content =
      [(["a", "self"], none, true), (["a", "b"], some "c", false)] := by
  obtain ⟨hlaid, -, hall, hunder, hcontents⟩ := uses_are_leaves selfGlob
  obtain ⟨herrors, hread⟩ := hall _ isMadeOf_selfGlob
  have hshape : ((tokens selfGlobApart).map Token.bare = selfGlobApartLexemes.flatten) ∧
      (selfGlobApartLexemes.flatten.all fun l => decide (l.IsPlain ∧ l.text ≠ "in")) = true ∧
      (selfGlobTrees.all fun t => decide ((t.2.all fun l => decide l.IsPlain) = true) &&
        t.2.head?.all fun l => l.text != "::") = true := by decide +kernel
  have huse : ∀ t ∈ selfGlobTrees, IsUse (t.1.under ["a"])
      ([] ++ ofName [] "use" :: ((selfGlobPath ++ colons :: t.2) ++ [sign [] ';'])) := by
    intro t ht
    have hplain := List.all_eq_true.1 hshape.2.2 t ht
    simp only [Bool.and_eq_true, decide_eq_true_eq, List.all_eq_true, Option.all_eq_true, bne_iff_ne] at hplain
    exact .intro .none rfl (hunder ["a"] selfGlobPath colons (isPath_ofName (by decide)) rfl t.1 t.2
      (spells_selfGlobTrees t ht) hplain.1 hplain.2) rfl
  have hapart : IsMadeOf selfGlobApart ((selfGlobTrees.map Prod.fst).map (UseTree.under ["a"])) :=
    ⟨_, .cons (huse _ (.head _)) (.cons (huse _ (.tail _ (.head _))) .nil), hshape.1,
      fun l hl => of_decide_eq_true (List.all_eq_true.1 hshape.2.1 l hl)⟩
  obtain ⟨hlist, heach, -⟩ := hcontents selfGlobApart ["a"] _ isMadeOf_selfGlob hapart
  refine ⟨hlaid.whole herrors, ?_, hlist, heach⟩
  obtain ⟨s, r, ⟨line, hs⟩, hr, hstatements⟩ := List.forall₂_cons_left_iff.1 hread
  rw [List.forall₂_nil_left_iff.1 hr, hs] at hstatements
  exact ⟨line, hstatements⟩

/-- **Not every path is whole**: the path of a glob may lose a `self`, which no other path but a lone one does. -/
theorem not_forall_whole_paths : ¬ ∀ cs trees, IsMadeOf cs trees →
    (ofCharacters cs).uses.map UseEntry.path = trees.flatMap fun t => t.leaves.map fun l =>
      if l.path = ["self"] ∧ l.glob = false ∧ l.above ≠ [] then l.above else l.above ++ l.path := by
  intro h
  have hpaths := h selfGlob _ isMadeOf_selfGlob
  exact absurd hpaths (by decide +kernel)

end SourceUnit

end ModelPool
