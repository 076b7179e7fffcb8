import ModelPool.Proofs.Source.Tiling

/-!
# Proofs/Source/Stretches — attributes and documentation reach their item

    /// doc   #[model]   pub struct A;   /// lost   use b;   #[derive(Debug)]   pub struct B;
    └──── stretch ───┘   item            └stretch┘  none     └─── stretch ──┘   item

A source is cut into blocks: a stretch of comments and attributes, and the statement that ends it.  An item has
the attributes and the documentation of its own stretch, and what stands before any other statement is given to
no item.

* `itemsFrom_eq_blocks` — the items of statements, block by block.
* `items_of_stretches` — the items of a source.
-/

namespace ModelPool

namespace Source

/-! ## What waits for an item -/

/-- The statement lengthens the stretch that it stands in. -/
def Statement.waits : Statement → Bool
  | comment _ | innerAttribute _ | outerAttribute _ => true
  | use _ _ | impl _ | item _ | other => false

/-- The outer attributes among statements. -/
def outerAttributesIn (ss : List Statement) : List Attribute :=
  ss.filterMap fun | .outerAttribute text => Attribute.ofText? text | _ => none

/-- The lines of documentation in the comments among statements. -/
def docsIn (ss : List Statement) : List String :=
  ss.filterMap fun | .comment text => documentation? text | _ => none

/-- The stretch of some statements. -/
def Stretch.of (ss : List Statement) : Stretch := ⟨outerAttributesIn ss, docsIn ss⟩

theorem outerAttributesIn_append (ss ss' : List Statement) :
    outerAttributesIn (ss ++ ss') = outerAttributesIn ss ++ outerAttributesIn ss' := List.filterMap_append

theorem docsIn_append (ss ss' : List Statement) : docsIn (ss ++ ss') = docsIn ss ++ docsIn ss' :=
  List.filterMap_append

/-- One more statement that waits lengthens the stretch by what it holds. -/
theorem itemsFrom_of_waits {s : Statement} (h : s.waits = true) (before r : List Statement) :
    itemsFrom (.of before) (s :: r) = itemsFrom (.of (before ++ [s])) r := by
  rw [Stretch.of, Stretch.of, outerAttributesIn_append, docsIn_append]
  cases s with
  | comment text =>
    rw [itemsFrom_comment]
    cases hdoc : documentation? text <;> simp [outerAttributesIn, docsIn, hdoc]
  | innerAttribute text => simp [itemsFrom, outerAttributesIn, docsIn]
  | outerAttribute text =>
    rw [itemsFrom_outerAttribute]
    cases hattribute : Attribute.ofText? text <;> simp [outerAttributesIn, docsIn, hattribute]
  | use line tree => exact absurd h (by simp [Statement.waits])
  | impl block => exact absurd h (by simp [Statement.waits])
  | item i => exact absurd h (by simp [Statement.waits])
  | other => exact absurd h (by simp [Statement.waits])

/-- The item that a statement gives behind a stretch, if it gives one. -/
def Statement.itemBehind? (stretch : List Statement) : Statement → Option Item
  | item i => some { i with attributes := outerAttributesIn stretch, docs := docsIn stretch }
  | comment _ | innerAttribute _ | outerAttribute _ | use _ _ | impl _ | other => none

/-- Any other statement ends the stretch. -/
theorem itemsFrom_of_not_waits {s : Statement} (h : s.waits = false) (before r : List Statement) :
    itemsFrom (.of before) (s :: r) = (s.itemBehind? before).toList ++ itemsFrom .empty r := by
  cases s with
  | comment text => exact absurd h (by simp [Statement.waits])
  | innerAttribute text => exact absurd h (by simp [Statement.waits])
  | outerAttribute text => exact absurd h (by simp [Statement.waits])
  | use line tree => simp [itemsFrom, Statement.itemBehind?]
  | impl block => simp [itemsFrom, Statement.itemBehind?]
  | item i => simp [itemsFrom, Statement.itemBehind?, Stretch.of]
  | other => simp [itemsFrom, Statement.itemBehind?]

/-! ## Blocks -/

/-- **A stretch and the statement that ends it**, laid out in a source. -/
structure Block where
  stretch : List Tile
  last : Tile

namespace Block

/-- All that the block is laid out in. -/
def tiles (b : Block) : List Tile := b.stretch ++ [b.last]

/-- The statements of the stretch. -/
def waiting (b : Block) : List Statement := b.stretch.map Tile.statement

/-- **The block is whole**: its stretch holds comments and attributes only, and its last statement is neither. -/
structure IsWhole (b : Block) : Prop where
  waits : ∀ tile ∈ b.stretch, tile.statement.waits = true
  ends : b.last.statement.waits = false

/-- **The item of a block**: its last statement, if that is an item, with the attributes and the documentation
of the stretch. -/
def item? (b : Block) : Option Item := b.last.statement.itemBehind? b.waiting

/-- The item of a block has what its stretch gives. -/
theorem of_item? {b : Block} {i : Item} (h : i ∈ b.item?) :
    i.attributes = outerAttributesIn b.waiting ∧ i.docs = docsIn b.waiting := by
  unfold item? at h
  cases hlast : b.last.statement with
  | item j =>
    rw [hlast] at h
    obtain rfl := Option.some.inj h
    exact ⟨rfl, rfl⟩
  | _ => rw [hlast] at h; exact absurd h (by simp [Statement.itemBehind?])

end Block

/-- **The items of statements, block by block.**  Statements before them that wait belong to the first block. -/
theorem itemsFrom_eq_blocks (tiles before : List Tile) (hbefore : ∀ tile ∈ before, tile.statement.waits = true) :
    ∃ (blocks : List Block) (tail : List Tile), before ++ tiles = blocks.flatMap Block.tiles ++ tail ∧
      (∀ b ∈ blocks, b.IsWhole) ∧ (∀ tile ∈ tail, tile.statement.waits = true) ∧
      itemsFrom (.of (before.map Tile.statement)) (tiles.map Tile.statement) = blocks.filterMap Block.item? := by
  induction tiles generalizing before with
  | nil => exact ⟨[], before, by simp, by simp, hbefore, rfl⟩
  | cons tile tiles ih =>
    cases hwaits : tile.statement.waits with
    | true =>
      obtain ⟨blocks, tail, hsplit, hwhole, htail, hitems⟩ := ih (before ++ [tile])
        (List.forall_mem_append.2 ⟨hbefore, List.forall_mem_singleton.2 hwaits⟩)
      rw [List.map_append, List.map_singleton] at hitems
      rw [List.append_assoc, List.singleton_append] at hsplit
      refine ⟨blocks, tail, hsplit, hwhole, htail, ?_⟩
      rw [List.map_cons, itemsFrom_of_waits hwaits, hitems]
    | false =>
      -- the block ends here, and nothing waits for the next one
      obtain ⟨blocks, tail, hsplit, hwhole, htail, hitems⟩ := ih [] (List.forall_mem_nil _)
      refine ⟨⟨before, tile⟩ :: blocks, tail, ?_, List.forall_mem_cons.2 ⟨⟨hbefore, hwaits⟩, hwhole⟩, htail, ?_⟩
      · rw [List.nil_append] at hsplit
        simp [Block.tiles, hsplit]
      · rw [List.map_cons, itemsFrom_of_not_waits hwaits, List.filterMap_cons]
        have hrest : itemsFrom .empty (tiles.map Tile.statement) = blocks.filterMap Block.item? := hitems
        have hitem : (⟨before, tile⟩ : Block).item? = tile.statement.itemBehind? (before.map Tile.statement) := rfl
        rw [hrest, hitem]
        cases tile.statement.itemBehind? (before.map Tile.statement) <;> rfl

end Source

namespace SourceUnit

open Source

/-- **A source is cut into blocks**, which its items are read from. -/
structure IsCutInto (cs : List Char) (blocks : List Block) (tail : List Tile) : Prop where
  tokens : tokens cs = (blocks.flatMap Block.tiles ++ tail).flatMap Tile.tokens
  covers : ∀ tile ∈ blocks.flatMap Block.tiles ++ tail, Tile.Covers tile.tokens tile.statement
  whole : ∀ b ∈ blocks, b.IsWhole
  waits : ∀ tile ∈ tail, tile.statement.waits = true

/-- A model is a struct with the attribute for that. -/
theorem isModel_iff {i : Item} : i.isModel = true ↔
    (∃ fields, i.kind = .struct fields) ∧ ∃ a ∈ i.attributes, a.name = modelAttribute := by
  unfold Item.isModel
  cases i.kind <;> simp

/-- **A well-formed source in blocks**, with the tiles that its statements are read from. -/
theorem exists_blocks {cs : List Char} (hwell : (ofCharacters cs).syntaxErrors = []) : ∃ blocks tail,
    IsCutInto cs blocks tail ∧ (ofCharacters cs).items = blocks.filterMap Block.item? ∧
      (blocks.flatMap Block.tiles ++ tail).map Tile.statement = (Source.statements cs).1 ∧
      ∀ tile ∈ blocks.flatMap Block.tiles ++ tail, ∃ c c', c.IsCutBehind ∧
        tile.IsReadAt (depthFor (Source.tokens cs)) c c' := by
  have hlaid := isLaidOut cs
  have hread : ∀ tile ∈ (portions cs).map Portion.toTile, ∃ c c', c.IsCutBehind ∧
      tile.IsReadAt (depthFor (Source.tokens cs)) c c' := List.forall_mem_map.2 fun p hp =>
    exists_isReadAt p hp (List.flatMap_eq_nil_iff.1 (hlaid.errors.trans hwell) p hp)
  obtain ⟨blocks, tail, hsplit, hwhole, htail, hitems⟩ :=
    itemsFrom_eq_blocks ((portions cs).map Portion.toTile) [] (List.forall_mem_nil _)
  rw [List.nil_append] at hsplit
  have hstatements : ((portions cs).map Portion.toTile).map Tile.statement = (Source.statements cs).1 := by
    rw [List.map_map]
    exact hlaid.statements
  have htokens : ((portions cs).map Portion.toTile).flatMap Tile.tokens = Source.tokens cs := by
    rw [List.flatMap_map]
    exact hlaid.whole hwell
  rw [hstatements] at hitems
  refine ⟨blocks, tail, ⟨by rw [← hsplit, htokens], ?_, hwhole, htail⟩, hitems, hsplit ▸ hstatements, hsplit ▸ hread⟩
  rw [← hsplit]
  exact fun tile htile => (hread tile htile).elim fun c hc => hc.elim fun c' hread => hread.2.covers hread.1

end SourceUnit

end ModelPool
