import ModelPool.Proofs.Source.FieldLayout

/-!
# Proofs/Source/Documented — documentation is what the comments before an item or a field say

    /// a   // b   #[x]   /** c */   struct A  {  /// d   f: u32  }
    └────────── row ───────────┘               └ row ┘  body

The comments in the row before an item are its documentation, and those before a field are the field's: by the rules
of the language wherever none of them is misread.  An ordinary comment adds nothing to it.

* `Tile.IsReadAt.exists_row` — comments and attributes make a row.
* `SourceUnit.docs_are_comments` — the documentation in a source.
-/

namespace ModelPool

namespace Source

/-- An item, an `impl` block and a statement that declares nothing end their stretch. -/
theorem Statement.IsLasting.not_waits {s : Statement} (hs : s.IsLasting) : s.waits = false := by
  cases s with
  | item | impl | other => rfl
  | comment | innerAttribute | outerAttribute | use => exact hs.elim

namespace Tile

variable {fuel : Nat} {c c' : Cursor} {tile : Tile} {tiles : List Tile}

/-- The named fields of a statement stand in its tokens. -/
theorem IsReadAt.holdsFields (h : tile.IsReadAt fuel c c') (hc : c.IsCutBehind) :
    HoldsFields tile.tokens tile.statement.fieldLists := by
  cases h with
  | comment _ _ => exact .none _
  | statement _ _ hread herrors =>
    cases fuel with
    | zero => exact absurd (show none = some _ from hread) (by simp)
    | succ n => exact ((Reader.statement_cases _ _ hread).holdsFields hc).fields herrors

/-- **A statement that waits is a row**: a comment, or an attribute with no comment to count. -/
theorem IsReadAt.exists_row (h : tile.IsReadAt fuel c c') (hwaits : tile.statement.waits = true) :
    ∃ comments, IsRow tile.tokens comments ∧ docsIn [tile.statement] = docsOfTokens comments := by
  have hattribute : ∀ {n : Nat} {inner : Bool} {text : String} {t : Token} {r : List Token} {d d' : Cursor},
      d.rest = t :: r → t.isComment = false → (Reader.attributeText n inner).run d = some (text, d') →
      IsRow (d.between d') [] := fun {n inner text t r d d'} hrest ht hrun => by
    have hvisible : d.IsVisible := fun u hu => by
      rw [hrest] at hu
      cases hu
      exact ht
    exact (Cursor.collects_attribute (Reader.yields_isAttributeRun hvisible _ _ hrun)).row
  cases h with
  | @comment t _ _ ht => exact ⟨[t], .comment ht .nil, by simp [docsIn, docsOfTokens, List.filterMap_cons]⟩
  | statement hrest ht hread _ =>
    cases Reader.isSorted_statement _ _ hread with
    | innerAttribute hrun => exact ⟨[], hattribute hrest ht hrun, rfl⟩
    | outerAttribute hrun => exact ⟨[], hattribute hrest ht hrun, rfl⟩
    | use => exact absurd hwaits (by simp [Statement.waits])
    | lasting hs => exact absurd hwaits (by rw [hs.not_waits]; decide)

/-- Statements that wait make a row. -/
theorem exists_row (hread : ∀ tile ∈ tiles, ∃ c c', tile.IsReadAt fuel c c')
    (hwaits : ∀ tile ∈ tiles, tile.statement.waits = true) : ∃ comments,
      IsRow (tiles.flatMap Tile.tokens) comments ∧ docsIn (tiles.map Tile.statement) = docsOfTokens comments := by
  induction tiles with
  | nil => exact ⟨[], .nil, rfl⟩
  | cons tile tiles ih =>
    obtain ⟨⟨c, c', htile⟩, hread⟩ := List.forall_mem_cons.1 hread
    obtain ⟨hfirst, hwaits⟩ := List.forall_mem_cons.1 hwaits
    obtain ⟨comments, hrow, hdocs⟩ := htile.exists_row hfirst
    obtain ⟨more, hmore, hrest⟩ := ih hread hwaits
    refine ⟨comments ++ more, hrow.append hmore, ?_⟩
    rw [List.map_cons, ← List.singleton_append, docsIn_append, hdocs, hrest, docsOfTokens_append]

end Tile

end Source

open Source

namespace SourceUnit

/-- **An item has the documentation before it**, and so has each of its named fields. -/
structure IsDocumented (b : Block) (i : Item) : Prop where
  item : ∃ comments, IsRow (b.stretch.flatMap Tile.tokens) comments ∧ AreDocs comments i.docs
  fields : HoldsFields b.last.tokens i.kind.fieldLists

/-- The item of a block has the fields of its last statement. -/
theorem fieldLists_of_item? {b : Block} {i : Item} (h : i ∈ b.item?) :
    b.last.statement.fieldLists = i.kind.fieldLists := by
  unfold Block.item? at h
  cases hlast : b.last.statement with
  | item j =>
    rw [hlast] at h
    obtain rfl := Option.some.inj h
    rfl
  | _ => rw [hlast] at h; exact absurd h (by simp [Statement.itemBehind?])

/-- **Documentation is read by the rules of the language**, but for the comments that are misread, and all of it is
in the comments before its item or its field. -/
theorem docs_are_comments {cs : List Char} (hwell : (ofCharacters cs).syntaxErrors = []) :
    (∀ t ∈ tokens cs, t.isComment = true → ((∀ line, documentation? t.text = some line ↔
      Documents t.text.toList line.toList) ↔ ¬ IsMisread t.text.toList)) ∧
    ∃ blocks tail, IsCutInto cs blocks tail ∧ (ofCharacters cs).items = blocks.filterMap Block.item? ∧
      ∀ b ∈ blocks, ∀ i ∈ b.item?, IsDocumented b i := by
  refine ⟨fun t ht hcomment => documentation?_iff (isComment_of_mem ht hcomment), ?_⟩
  obtain ⟨blocks, tail, hcut, hitems, -, hread⟩ := exists_blocks hwell
  refine ⟨blocks, tail, hcut, hitems, fun b hb i hi => ⟨?_, ?_⟩⟩
  · have hmem : ∀ tile ∈ b.stretch, tile ∈ blocks.flatMap Block.tiles ++ tail := fun tile htile =>
      List.mem_append_left _ (List.mem_flatMap.2 ⟨b, hb, List.mem_append_left _ htile⟩)
    obtain ⟨comments, hrow, hdocs⟩ := Tile.exists_row (fun tile htile => by
      obtain ⟨c, c', -, hread⟩ := hread tile (hmem tile htile)
      exact ⟨c, c', hread⟩) (hcut.whole b hb).waits
    refine ⟨comments, hrow, ?_⟩
    rw [(Block.of_item? hi).2, Block.waiting, hdocs]
    refine areDocs_docsOfTokens fun t ht => ?_
    obtain ⟨hrow, hcomment⟩ := hrow.mem t ht
    obtain ⟨tile, htile, ht⟩ := List.mem_flatMap.1 hrow
    have htokens : t ∈ tokens cs := hcut.tokens ▸ List.mem_flatMap.2 ⟨tile, hmem tile htile, ht⟩
    exact isComment_of_mem htokens hcomment
  · obtain ⟨c, c', hc, hread⟩ := hread b.last
      (List.mem_append_left _ (List.mem_flatMap.2 ⟨b, hb, List.mem_append_right _ (List.mem_singleton_self _)⟩))
    rw [← fieldLists_of_item? hi]
    exact hread.holdsFields hc

/-- A model with comments of all sorts before it and its fields. -/
def annotated : List Char :=
  "/// a \n// b\n#[model]\n/*** c */\n/** d */\nstruct A \x7b /*! e */ x: u8 /// f\n, //// g\n#[h] y: u8 \x7d".toList

/-- Three of its comments are documentation: two of the model, and one of the second field. -/
theorem docs_are_comments_annotated : (ofCharacters annotated).syntaxErrors = [] ∧
    ((ofCharacters annotated).items.map fun i => (i.docs, i.kind.fieldLists.map (List.map Field.docs))) =
      [(["a", "d"], [[[], ["f"]]])] ∧
    ∃ blocks tail, IsCutInto annotated blocks tail ∧ (ofCharacters annotated).items = blocks.filterMap Block.item? ∧
      ∀ b ∈ blocks, ∀ i ∈ b.item?, IsDocumented b i := by
  have hparsed : (ofCharacters annotated).syntaxErrors = [] ∧
      ((ofCharacters annotated).items.map fun i => (i.docs, i.kind.fieldLists.map (List.map Field.docs))) =
        [(["a", "d"], [[[], ["f"]]])] := by
    delta annotated
    rw [String.toList_ofList]
    decide +kernel
  obtain ⟨-, blocks, tail, hdocumented⟩ := docs_are_comments hparsed.1
  exact ⟨hparsed.1, hparsed.2, blocks, tail, hdocumented⟩

/-- **Not all documentation is read by the rules**: the empty comment documents nothing, and a slash is read in it. -/
theorem not_forall_documentation_by_rules : ¬ ∀ cs : List Char, (ofCharacters cs).syntaxErrors = [] →
    ∀ t ∈ tokens cs, t.isComment = true →
      ∀ line, documentation? t.text = some line ↔ Documents t.text.toList line.toList := by
  intro hall
  have hparsed : (ofCharacters "/**/ struct A;".toList).syntaxErrors = [] ∧
      ((tokens "/**/ struct A;".toList).head?.map fun t => (t.text, t.isComment)) = some ("/**/", true) := by
    decide +kernel
  obtain ⟨t, hhead, htext⟩ := Option.map_eq_some_iff.1 hparsed.2
  obtain ⟨htext, hcomment⟩ := Prod.mk.inj htext
  have ht : t ∈ tokens "/**/ struct A;".toList := List.mem_of_mem_head? hhead
  have hread := (documentation?_iff (isComment_of_mem ht hcomment)).1 (hall _ hparsed.1 t ht hcomment)
  rw [htext] at hread
  exact hread .empty

end SourceUnit

end ModelPool
