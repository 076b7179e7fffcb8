import ModelPool.Proofs.Source.StatementCases
import ModelPool.Proofs.Source.UnitYielding

/-!
# Proofs/Source/Tiling — the statements of a source lie side by side

    /// a      #[m]      pub struct A;      use b;
    comment    attribute item               use

Every token of a well-formed source belongs to one statement.  A comment outside of every other statement is a
statement by itself: a reader of a statement stops right behind the last of its tokens, so it takes in no comment
that follows.  In any source each error belongs to one statement, and the others are read as they are by
themselves.

* `Reader.Stops` — the law for a reader.
* `SourceUnit.isLaidOut` — a source is laid out in its statements.
* `SourceUnit.exists_tiles` — a well-formed source, in tiles.
* `SourceUnit.isParsed_of_mem_items`, `SourceUnit.isParsed_of_mem_impls` — its types are types as they are read.
-/

namespace ModelPool

namespace Source

/-! ## Places -/

namespace Cursor

variable {c d e : Cursor} {done : List Token} {t : Token}

/-- The tokens between this place and a later one. -/
def between (c later : Cursor) : List Token := c.rest.take (later.taken - c.taken)

theorem Passed.between_eq (h : c.Passed done d) : c.between d = done := by
  rw [between, h.taken, Nat.add_sub_cancel_left, h.rest, List.take_left]

theorem upTo_eq_between (c d : Cursor) : c.upTo d = (c.between d).dropWhile Token.isComment := rfl

/-- **What is ahead of a place** are the tokens up to a later one, and what is ahead of that. -/
theorem Precedes.rest_eq (h : c.Precedes d) : c.rest = c.between d ++ d.rest := by
  obtain ⟨k, hrest, htaken, -⟩ := h
  rw [between, htaken, Nat.add_sub_cancel_left, hrest, List.take_append_drop]

theorem Precedes.between_trans (h : c.Precedes d) (h' : d.Precedes e) :
    c.between e = c.between d ++ d.between e := by
  obtain ⟨k, hrest, htaken, -⟩ := h
  obtain ⟨l, -, htaken', -⟩ := h'
  have hfirst : d.taken - c.taken = k := by omega
  have hsecond : e.taken - d.taken = l := by omega
  have hboth : e.taken - c.taken = k + l := by omega
  rw [between, between, between, hfirst, hsecond, hboth, hrest, List.take_add]

/-- **A place right behind a token** that is no comment, or behind a closing bracket, unless an error has been
recorded on the way. -/
structure StopsAt (c later : Cursor) : Prop where
  precedes : c.Precedes later
  last : later.errors = c.errors → ∃ t, (c.between later).getLast? = some t ∧
    (t.isComment = false ∨ isClosingBracket t.text = true)

/-- Where no error has been recorded at the end, none has been on the way. -/
theorem Precedes.errors_eq (h : c.Precedes d) (h' : d.Precedes e) (herrors : e.errors = c.errors) :
    d.errors = c.errors := by
  have hlength := h'.errors_grow.length_le
  rw [herrors] at hlength
  exact (h.errors_grow.eq_of_length (Nat.le_antisymm h.errors_grow.length_le hlength)).symm

/-- Where no errors are new there are no others. -/
theorem Precedes.errors_eq_of_drop (h : c.Precedes d) (hnew : d.errors.drop c.errors.length = []) :
    d.errors = c.errors := by
  have herrors := List.prefix_iff_eq_append.1 h.errors_grow
  rw [hnew, List.append_nil] at herrors
  exact herrors.symm

theorem Precedes.trans_stopsAt (h : c.Precedes d) (h' : d.StopsAt e) : c.StopsAt e where
  precedes := h.trans h'.precedes
  last herrors := by
    obtain ⟨t, ht, hlast⟩ := h'.last (herrors.trans (h.errors_eq h'.precedes herrors).symm)
    exact ⟨t, by rw [h.between_trans h'.precedes, List.getLast?_append, ht]; rfl, hlast⟩

theorem stopsAt_forward (h : c.ahead? = some t) : c.StopsAt c.forward where
  precedes := c.precedes_forward
  last _ := by
    obtain ⟨comments, hpassed, -, ht⟩ := exists_passed_forward h
    exact ⟨t, by rw [hpassed.between_eq, List.getLast?_concat], .inl ht⟩

end Cursor

/-! ## Readers -/

namespace Reader

variable {α β : Type} {m n : Reader α} {f : α → Reader β} {c : Cursor} {s : String}

/-- **The reader stops right behind what it has read.** -/
class Stops (m : Reader α) : Prop where
  stopsAt : ∀ {c : Cursor} {a : α} {c' : Cursor}, m.run c = some (a, c') → c.StopsAt c'

theorem stops_failure : Stops (failure : Reader α) where
  stopsAt h := absurd (show none = some _ from h) (by simp)

instance : Stops (failure : Reader α) := stops_failure

/-- The last part decides where a reader stops. -/
theorem stops_behind [hm : Moves m] (hf : ∀ a, Stops (f a)) : Stops (m >>= f) where
  stopsAt h := by
    obtain ⟨a, c', ha, hb⟩ := run_bind_eq_some.1 h
    exact (hm.precedes ha).trans_stopsAt ((hf a).stopsAt hb)

instance [Moves m] [hf : ∀ a, Stops (f a)] : Stops (m >>= f) := stops_behind hf

instance [hm : Stops m] (g : α → β) : Stops (g <$> m) where
  stopsAt h := by
    obtain ⟨a, ha, -⟩ := run_map_eq_some.1 h
    exact hm.stopsAt ha

instance [hm : Stops m] [hn : Stops n] : Stops (m <|> n) where
  stopsAt h := (run_orElse_eq_some h).elim hm.stopsAt hn.stopsAt

theorem stops_if {p : Prop} [Decidable p] (hm : Stops m) (hn : Stops n) : Stops (if p then m else n) := by
  split <;> assumption

instance {p : Prop} [Decidable p] [hm : Stops m] [hn : Stops n] : Stops (if p then m else n) := stops_if hm hn

/-- **The reader may follow one that stops**: it stops itself, or it stays where it is. -/
class Follows (m : Reader α) : Prop where
  stopsAt : ∀ {start c : Cursor} {a : α} {c' : Cursor}, start.StopsAt c → m.run c = some (a, c') →
    start.StopsAt c'

instance (a : α) : Follows (pure a) where
  stopsAt h hrun := by
    obtain ⟨-, rfl⟩ := Prod.mk.inj (Option.some.inj hrun)
    exact h

instance : Follows (get : Reader Cursor) where
  stopsAt h hrun := by
    obtain ⟨-, rfl⟩ := Prod.mk.inj (Option.some.inj hrun)
    exact h

instance (priority := low) [hm : Stops m] : Follows m where
  stopsAt h hrun := h.precedes.trans_stopsAt (hm.stopsAt hrun)

instance [hm : Follows m] [hf : ∀ a, Follows (f a)] : Follows (m >>= f) where
  stopsAt h hrun := by
    obtain ⟨a, c', ha, hb⟩ := run_bind_eq_some.1 hrun
    exact (hf a).stopsAt (hm.stopsAt h ha) hb

instance {p : Prop} [Decidable p] [hm : Follows m] [hn : Follows n] : Follows (if p then m else n) := by
  split <;> assumption

instance (start : Cursor) : Follows (since start) := by unfold since; infer_instance

theorem stops_before [hm : Stops m] (hf : ∀ a, Follows (f a)) : Stops (m >>= f) where
  stopsAt h := by
    obtain ⟨a, c', ha, hb⟩ := run_bind_eq_some.1 h
    exact (hf a).stopsAt (hm.stopsAt ha) hb

instance (priority := low) [Stops m] [hf : ∀ a, Follows (f a)] : Stops (m >>= f) := stops_before hf

/-- A reader stops if whatever it yields lies right behind what it has read. -/
theorem stops_of_yields (h : ∀ c, Yields m c fun _ c' => c.StopsAt c') : Stops m where
  stopsAt hrun := h _ _ _ hrun

theorem exists_ahead?_of_textOf (hs : s ≠ "") (h : textOf c.ahead? = s) : ∃ t, c.ahead? = some t := by
  cases hahead : c.ahead? with
  | none => exact absurd (by simpa [textOf, hahead] using h.symm) hs
  | some t => exact ⟨t, rfl⟩

theorem stops_expect (hs : s ≠ "") : Stops (expect s) :=
  stops_of_yields fun _ => yields_expect fun h =>
    (exists_ahead?_of_textOf hs h).elim fun _ ht => Cursor.stopsAt_forward ht

instance : Stops (expect ";") := stops_expect (by decide)

instance : Stops (expect "]") := stops_expect (by decide)

/-- Behind a sign that may be ahead it is enough to stay. -/
theorem stops_optional {f : Bool → Reader β} (hs : s ≠ "") (htrue : Follows (f true)) (hfalse : Stops (f false)) :
    Stops (optional s >>= f) :=
  stops_of_yields fun _ => yields_bind (yields_optional
    (fun h _ _ hrun => (exists_ahead?_of_textOf hs h).elim fun _ ht =>
      htrue.stopsAt (Cursor.stopsAt_forward ht) hrun)
    fun _ _ _ hrun => hfalse.stopsAt hrun)

theorem follows_optional (hs : s ≠ "") : Follows (optional s) where
  stopsAt {start c a c'} h hrun := by
    refine yields_optional (Q := fun _ c' => start.StopsAt c') (fun htext => ?_) (fun _ => h) a c' hrun
    obtain ⟨t, ht⟩ := exists_ahead?_of_textOf hs htext
    exact h.precedes.trans_stopsAt (Cursor.stopsAt_forward ht)

instance : Follows (optional "else") := follows_optional (by decide)

/-- A closing sign that is missing is an error. -/
instance (sign : String) : Stops (close sign) := by
  refine stops_of_yields fun c => ?_
  unfold close
  refine yields_bind (yields_atEnd (yields_if (fun _ => yields_modify ?_) fun hahead => ?_))
  · refine ⟨c.precedes_passComments.trans ⟨0, rfl, rfl, List.prefix_append _ _⟩, fun herrors => ?_⟩
    have hlength := congrArg List.length herrors
    simp [c.errors_passComments] at hlength
  · cases hc : c.ahead? with
    | none => simp [hc] at hahead
    | some t => exact yields_expect fun _ => Cursor.stopsAt_forward hc

instance (sign : String) [Moves m] (fuel : Nat) : Stops (list sign fuel m) := by
  unfold list; infer_instance

/-- A group ends in the bracket that closes it. -/
instance (quotes : Bool) : Stops (group quotes) := by
  refine stops_of_yields fun c => ?_
  obtain ⟨comments, hpassed, -, -⟩ := c.passed_comments
  unfold group
  refine yields_bind (yields_modify (yields_bind (yields_text (yields_bind (yields_get ?_)))))
  split
  · next sign k _ hlength =>
    have hends := endsGroup hlength
    obtain ⟨t, ht, hclosing⟩ := hends.last
    refine yields_modify (c.precedes_passComments.trans_stopsAt ⟨⟨k, rfl, rfl, List.prefix_rfl⟩, fun _ => ?_⟩)
    exact ⟨t, by rw [Cursor.between, Nat.add_sub_cancel_left, ht], .inr hclosing⟩
  · exact yields_failure

instance : Stops block := by unfold block; infer_instance

instance : Stops macroArguments := by unfold macroArguments; infer_instance

instance (fuel : Nat) : Stops (attributeBody fuel) := by unfold attributeBody; infer_instance

instance (fuel : Nat) (inner : Bool) : Stops (attributeText fuel inner) := by
  unfold attributeText; infer_instance

/-! ### Declarations -/

instance (n : Nat) : Stops (namedFields n) := by unfold namedFields; infer_instance

instance (n : Nat) : Stops (variants n) := by unfold variants; infer_instance

instance (n : Nat) : Stops (initialValue n) := by unfold initialValue; infer_instance

instance (h : Heading) : Stops (macroRules h) := by
  unfold macroRules
  refine stops_behind fun _ => stops_behind fun _ => stops_behind fun _ => stops_behind fun _ => ?_
  infer_instance

instance : Stops externCrate := by
  unfold externCrate
  repeat' first
    | infer_instance
    | refine stops_behind fun _ => ?_

instance (n : Nat) : Stops (letDeclaration n) := by
  unfold letDeclaration
  repeat' first
    | infer_instance
    | refine stops_behind fun _ => ?_
    | refine stops_if ?_ ?_

instance (n : Nat) : Stops (macroCall n) := by unfold macroCall; infer_instance

instance (n : Nat) : Stops (blockExpression n) := by
  induction n with
  | zero => exact stops_failure
  | succ n ih =>
    unfold blockExpression
    repeat' first
      | infer_instance
      | refine stops_behind fun _ => ?_
      | refine stops_if ?_ ?_
      | split

instance (n : Nat) : Stops (expressionStatement n) := by unfold expressionStatement; infer_instance

/-- A function ends in a semicolon or in its body. -/
instance (n : Nat) (h : Heading) : Stops (function n h) := by
  have hend : ∀ found : Statement, Stops (do
      if !(← optional ";") then block
      return found) := fun found =>
    stops_optional (by decide) (by rw [if_neg (by decide)]; infer_instance)
      (by rw [if_pos (by decide)]; infer_instance)
  unfold function
  repeat' first
    | exact hend _
    | refine stops_behind fun _ => ?_
    | refine stops_if ?_ ?_

/-- **The readers for declarations without others inside stop.** -/
class DeclarationsStop (n : Nat) (h : Heading) : Prop where
  constant : Stops (constant n h)
  static : Stops (static n h)
  typeAlias : Stops (typeAlias n h)
  struct : Stops (struct n h)
  enum : Stops (enum n h)
  union : Stops (union n h)
  useDeclaration : Stops (useDeclaration n h)

attribute [instance] DeclarationsStop.constant DeclarationsStop.static DeclarationsStop.typeAlias
  DeclarationsStop.struct DeclarationsStop.enum DeclarationsStop.union
  DeclarationsStop.useDeclaration

instance declarationsStop (n : Nat) (h : Heading) : DeclarationsStop n h := by
  constructor
  all_goals
    first
      | unfold constant | unfold static | unfold typeAlias | unfold struct | unfold enum | unfold union
      | unfold useDeclaration
    repeat' first
      | infer_instance
      | refine stops_behind fun _ => ?_
      | refine stops_if ?_ ?_

/-! ### Statements -/

/-- **The readers for statements stop**, with so much fuel. -/
class StatementsStop (n : Nat) : Prop where
  statement : ∀ expressions, Stops (statement n expressions)
  declarations : Stops (declarations n)
  moduleItem : ∀ h, Stops (moduleItem n h)
  traitItem : ∀ h, Stops (traitItem n h)
  implBlock : ∀ line, Stops (implBlock n line)

attribute [instance] StatementsStop.statement StatementsStop.declarations StatementsStop.moduleItem
  StatementsStop.traitItem StatementsStop.implBlock

instance (n : Nat) [StatementsStop n] : Stops (foreignBlock n) := by
  unfold foreignBlock
  refine stops_behind fun _ => stops_behind fun _ => stops_optional (by decide) ?_ ?_
  · rw [if_neg (by decide)]
    infer_instance
  · rw [if_pos (by decide)]
    infer_instance

theorem stops_of_mem_declarationReaders {k : Nat} {h : Heading} [StatementsStop k] {m : Reader Statement}
    (hm : m ∈ declarationReaders k h) : Stops m := by
  simp only [declarationReaders, List.mem_cons, List.not_mem_nil, or_false] at hm
  rcases hm with rfl | rfl | rfl | rfl | rfl | rfl | rfl | rfl | rfl | rfl | rfl | rfl | rfl <;> infer_instance

theorem stops_of_mem_otherStatementReaders {k line : Nat} [StatementsStop k] {m : Reader Statement}
    (hm : m ∈ otherStatementReaders k line) : Stops m := by
  simp only [otherStatementReaders, List.mem_cons, List.not_mem_nil, or_false] at hm
  rcases hm with rfl | rfl | rfl | rfl <;> infer_instance

/-- A statement stops, however it is read. -/
theorem IsStatement.stopsAt {k : Nat} (hstops : ∀ j ≤ k, StatementsStop j) {statement : Statement} {c' : Cursor}
    (hread : IsStatement k c statement c') : c.StopsAt c' := by
  cases hread with
  | innerAttribute hrun => exact Stops.stopsAt hrun
  | outerAttribute hrun => exact Stops.stopsAt hrun
  | mark ht => exact Cursor.stopsAt_forward ht
  | declaration hvisibility hrun =>
    cases k with
    | zero => exact absurd (show none = some _ from hrun) (by simp)
    | succ k =>
      obtain ⟨m, hm, hrun⟩ := (declaration?_cases _ _ hrun).1 statement rfl
      have := hstops k (Nat.le_succ k)
      exact (Moves.precedes hvisibility).trans_stopsAt ((stops_of_mem_declarationReaders hm).stopsAt hrun)
  | other hm hd hrun =>
    have := hstops k le_rfl
    exact hd.trans_stopsAt ((stops_of_mem_otherStatementReaders hm).stopsAt hrun)

/-- **Every statement stops right behind its last token.** -/
instance statementsStop (n : Nat) : StatementsStop n := by
  induction n using Nat.strong_induction_on with
  | _ n ih =>
    cases n with
    | zero => constructor <;> intros <;> exact stops_failure
    | succ n =>
      have := ih n (Nat.lt_succ_self n)
      refine ⟨fun expressions => stops_of_yields fun c => statement_cases.imp fun _ _ hread =>
        hread.stopsAt fun j hj => ih j (Nat.lt_succ_of_le hj), ?_, fun h => ?_, fun h => ?_, fun line => ?_⟩
      · unfold declarations
        infer_instance
      · unfold moduleItem
        infer_instance
      · unfold traitItem
        repeat' first
          | infer_instance
          | refine stops_behind fun _ => ?_
      · unfold implBlock
        refine stops_behind fun _ => stops_behind fun _ => stops_behind fun _ => stops_behind fun _ =>
          stops_behind fun _ => stops_behind fun _ => stops_optional (by decide) ?_ ?_
        · rw [if_pos rfl]
          infer_instance
        · rw [if_neg (by decide)]
          infer_instance

end Reader

/-! ## Tiles -/

/-- **A statement with the tokens that it is read from.** -/
structure Tile where
  tokens : List Token
  statement : Statement

namespace Tile

variable {fuel : Nat} {c c' : Cursor} {tile : Tile} {tiles : List Tile}

/-- **How a tile is read** at a place: a comment by itself, and anything else as a statement. -/
inductive IsReadAt (fuel : Nat) : Cursor → Tile → Cursor → Prop where
  | comment {c : Cursor} {t : Token} {r : List Token} (hrest : c.rest = t :: r) (ht : t.isComment = true) :
      IsReadAt fuel c ⟨[t], .comment t.text⟩ { c with rest := r, taken := c.taken + 1, stop := t.stop }
  | statement {c c' : Cursor} {t : Token} {r : List Token} {s : Statement} (hrest : c.rest = t :: r)
      (ht : t.isComment = false) (hread : (Reader.statement fuel true).run c = some (s, c'))
      (herrors : c'.errors = c.errors) : IsReadAt fuel c ⟨c.between c', s⟩ c'

/-- **What a tile covers**: a comment is a token by itself; any other statement begins and ends with a token that
is no comment, and an attribute keeps the text of its tokens. -/
inductive Covers : List Token → Statement → Prop where
  | comment {t : Token} (ht : t.isComment = true) : Covers [t] (.comment t.text)
  | statement {ts : List Token} {s : Statement} (hfirst : ∃ t, ts.head? = some t ∧ t.isComment = false)
      (hlast : ∃ t, ts.getLast? = some t ∧ t.isComment = false) (hs : ∀ text, s ≠ .comment text)
      (htext : ∀ text, s = .innerAttribute text ∨ s = .outerAttribute text →
        text = String.ofList (Token.spanned ts)) : Covers ts s

theorem Covers.ne_nil {ts : List Token} {s : Statement} (h : Covers ts s) : ts ≠ [] := by
  cases h with
  | comment _ => exact List.cons_ne_nil _ _
  | statement hfirst _ _ _ =>
    obtain ⟨t, ht, -⟩ := hfirst
    rintro rfl
    exact absurd ht (by simp)

/-- What is ahead of a tile is the tile and what is behind it. -/
theorem IsReadAt.rest_eq (h : tile.IsReadAt fuel c c') : c.rest = tile.tokens ++ c'.rest := by
  cases h with
  | comment hrest _ => exact hrest
  | statement _ _ hread _ => exact (Reader.Moves.precedes hread).rest_eq

/-- The text of an attribute is that of the tokens that it is read from. -/
theorem text_of_attributeText {inner : Bool} {text : String}
    (h : (Reader.attributeText fuel inner).run c = some (text, c')) :
    text = String.ofList (Token.spanned (c.upTo c')) := by
  unfold Reader.attributeText at h
  obtain ⟨_, _, hget, h⟩ := Reader.run_bind_eq_some.1 h
  obtain ⟨rfl, rfl⟩ := Prod.mk.inj (Option.some.inj hget)
  have hsince : ∀ (d : Cursor), Reader.Yields (Reader.since c) d fun text c' =>
      text = String.ofList (Token.spanned (c.upTo c')) := fun _ => Reader.yields_since rfl
  have hrest : Reader.Yields (do
      Reader.expect "#"
      if inner then Reader.expect "!"
      Reader.expect "["
      Reader.attributeBody fuel
      Reader.since c) c fun text c' => text = String.ofList (Token.spanned (c.upTo c')) := by
    refine Reader.yields_past fun _ _ _ => Reader.yields_if (fun _ => ?_) fun _ => ?_
    · exact Reader.yields_past fun _ _ _ => Reader.yields_past fun _ _ _ => Reader.yields_past fun _ _ _ => hsince _
    · exact Reader.yields_past fun _ _ _ => Reader.yields_past fun _ _ _ => hsince _
  exact hrest _ _ h

/-- A closing bracket behind the first token is no comment. -/
theorem isComment_of_closing (hc : c.IsCutBehind) {t u : Token} {ts r : List Token}
    (hrest : c.rest = t :: (ts ++ r)) (hu : u ∈ ts) (hclosing : isClosingBracket u.text = true) :
    u.isComment = false := by
  obtain ⟨p, cs, hcut⟩ := hc
  have hmem : u ∈ tokensFrom p cs := by
    rw [← hcut, hrest]
    exact List.mem_append_left _ hu
  rw [Bool.eq_false_iff]
  exact fun hcomment => absurd (hclosing.symm.trans (isClosingBracket_of_comment hmem hcomment)) (by decide)

/-- **A tile covers what it is read from.** -/
theorem IsReadAt.covers (h : tile.IsReadAt fuel c c') (hc : c.IsCutBehind) :
    Covers tile.tokens tile.statement := by
  cases h with
  | comment _ ht => exact .comment ht
  | @statement _ t r s hrest ht hread herrors =>
    obtain ⟨u, hu, hlast⟩ := (Reader.Stops.stopsAt hread).last herrors
    have hsplit := (Reader.Moves.precedes hread).rest_eq
    obtain ⟨ts, hbetween⟩ : ∃ ts, c.between c' = t :: ts := by
      cases hbetween : c.between c' with
      | nil => rw [hbetween] at hu; exact absurd hu (by simp)
      | cons v ts =>
        rw [hrest, hbetween] at hsplit
        obtain ⟨rfl, -⟩ := List.cons.inj hsplit
        exact ⟨ts, rfl⟩
    have hupTo : c.upTo c' = c.between c' := by
      rw [Cursor.upTo_eq_between, hbetween, List.dropWhile_cons_of_neg (by simp [ht])]
    refine .statement ⟨t, by rw [hbetween]; rfl, ht⟩ ⟨u, hu, ?_⟩ ?_ ?_
    · refine hlast.elim id fun hclosing => ?_
      rw [hbetween] at hu hsplit
      rcases List.mem_cons.1 (List.mem_of_getLast? hu) with rfl | hmem
      · exact ht
      · exact isComment_of_closing hc hsplit hmem hclosing
    · rintro text rfl
      cases Reader.isSorted_statement _ _ hread with
      | lasting hs => exact hs
    · rw [← hupTo]
      rintro text (rfl | rfl)
      · cases Reader.isSorted_statement _ _ hread with
        | innerAttribute hrun => exact text_of_attributeText hrun
        | lasting hs => exact hs.elim
      · cases Reader.isSorted_statement _ _ hread with
        | outerAttribute hrun => exact text_of_attributeText hrun
        | lasting hs => exact hs.elim

/-- **The types of a tile are types as they are read.** -/
theorem IsReadAt.isParsed (h : tile.IsReadAt fuel c c') (hc : c.IsCutBehind) : tile.statement.IsParsed := by
  cases h with
  | comment _ _ => exact isParsed_of_types rfl
  | statement _ _ hread _ => exact (Reader.statementsYield fuel).statement hc _ _ hread

end Tile

/-! ## Sources -/

/-- **A statement of any source**: the tokens that it is read from, and the errors that it brings. -/
structure Portion extends Tile where
  errors : List SyntaxError

namespace Cursor

variable {fuel : Nat} {c : Cursor}

/-- The statements from this place on, with their tokens and errors. -/
def portions (fuel : Nat) (c : Cursor) : List Portion :=
  match _h : c.rest with
  | [] => []
  | t :: r =>
    let found := c.statement fuel t r
    let first : Portion := ⟨⟨c.between found.2, found.1⟩, found.2.errors.drop c.errors.length⟩
    if found.2.rest.length < c.rest.length then first :: found.2.portions fuel else [first]
termination_by c.rest.length

/-- A statement takes tokens from ahead, and no error is forgotten. -/
theorem precedes_statement (fuel : Nat) {t : Token} {r : List Token} (hrest : c.rest = t :: r) :
    c.Precedes (c.statement fuel t r).2 := (isNext_statement fuel hrest).precedes hrest

/-- **A statement that brings no error is a tile.** -/
theorem isReadAt_statement {t : Token} {r : List Token} (hrest : c.rest = t :: r)
    (herrors : (c.statement fuel t r).2.errors = c.errors) :
    Tile.IsReadAt fuel c ⟨c.between (c.statement fuel t r).2, (c.statement fuel t r).1⟩ (c.statement fuel t r).2 := by
  generalize hnext : c.statement fuel t r = found at herrors ⊢
  cases hnext ▸ isNext_statement fuel hrest with
  | comment ht =>
    have hbetween : c.between { c with rest := r, taken := c.taken + 1, stop := t.stop } = [t] := by
      simp [between, hrest]
    rw [hbetween]
    exact .comment hrest ht
  | statement ht hread => exact .statement hrest ht hread herrors
  | malformed _ _ hnew => exact absurd (congrArg List.length herrors) (Nat.ne_of_gt hnew)

/-- Some token is taken by a tile. -/
theorem length_lt_of_isReadAt {tile : Tile} {later : Cursor} (h : tile.IsReadAt fuel c later)
    (hc : c.IsCutBehind) : later.rest.length < c.rest.length := by
  have hlength := congrArg List.length h.rest_eq
  have hne : 0 < tile.tokens.length := List.length_pos_iff.2 (h.covers hc).ne_nil
  rw [List.length_append] at hlength
  omega

theorem statements_nil (hrest : c.rest = []) : c.statements fuel = ([], c.errors) := by
  rw [statements]
  split
  · rfl
  · next t r heq => exact absurd (hrest.symm.trans heq) (by simp)

theorem statements_cons {t : Token} {r : List Token} (hrest : c.rest = t :: r) : c.statements fuel =
    if (c.statement fuel t r).2.rest.length < c.rest.length then
      ((c.statement fuel t r).1 :: ((c.statement fuel t r).2.statements fuel).1,
        ((c.statement fuel t r).2.statements fuel).2)
    else ([(c.statement fuel t r).1], (c.statement fuel t r).2.errors) := by
  rw [statements]
  split
  · next heq => exact absurd (hrest.symm.trans heq) (by simp)
  · next t' r' heq =>
    obtain ⟨rfl, rfl⟩ := List.cons.inj (hrest.symm.trans heq)
    rfl

theorem map_statement_portions (fuel : Nat) (c : Cursor) :
    (c.portions fuel).map (fun p => p.statement) = (c.statements fuel).1 := by
  fun_induction portions fuel c with
  | case1 c hrest => rw [statements_nil hrest, List.map_nil]
  | case2 c t r hrest found first hless ih => rw [statements_cons hrest, if_pos hless, List.map_cons, ih]
  | case3 c t r hrest found first hless => rw [statements_cons hrest, if_neg hless, List.map_singleton]

/-- The errors found are those of all portions. -/
theorem errors_portions (fuel : Nat) (c : Cursor) :
    c.errors ++ (c.portions fuel).flatMap Portion.errors = (c.statements fuel).2 := by
  fun_induction portions fuel c with
  | case1 c hrest => rw [statements_nil hrest, List.flatMap_nil, List.append_nil]
  | case2 c t r hrest found first hless ih =>
    have herrors := List.prefix_iff_eq_append.1 (precedes_statement fuel hrest).errors_grow
    rw [statements_cons hrest, if_pos hless, List.flatMap_cons, ← List.append_assoc, herrors, ih]
  | case3 c t r hrest found first hless =>
    have herrors := List.prefix_iff_eq_append.1 (precedes_statement fuel hrest).errors_grow
    rw [statements_cons hrest, if_neg hless, List.flatMap_singleton, herrors]

/-- The tokens of the portions stand ahead, one portion behind the other. -/
theorem tokens_portions (fuel : Nat) (c : Cursor) : (c.portions fuel).flatMap (fun p => p.tokens) <+: c.rest := by
  fun_induction portions fuel c with
  | case1 c hrest => exact List.nil_prefix
  | case2 c t r hrest found first hless ih =>
    rw [List.flatMap_cons, (precedes_statement fuel hrest).rest_eq]
    exact (List.prefix_append_right_inj _).2 ih
  | case3 c t r hrest found first hless =>
    rw [List.flatMap_singleton, (precedes_statement fuel hrest).rest_eq]
    exact List.prefix_append _ _

/-- Where a statement brings no error, the reading goes on behind it. -/
theorem length_lt_of_statement {t : Token} {r : List Token} (hc : c.IsCutBehind) (hrest : c.rest = t :: r)
    (herrors : (c.statement fuel t r).2.errors.drop c.errors.length = []) :
    (c.statement fuel t r).2.rest.length < c.rest.length :=
  length_lt_of_isReadAt (isReadAt_statement hrest ((precedes_statement fuel hrest).errors_eq_of_drop herrors)) hc

/-- **A portion without errors is a tile.** -/
theorem exists_isReadAt (hc : c.IsCutBehind) : ∀ p ∈ c.portions fuel, p.errors = [] →
    ∃ d d', d.IsCutBehind ∧ p.toTile.IsReadAt fuel d d' := by
  fun_induction portions fuel c with
  | case1 c hrest => exact List.forall_mem_nil _
  | case2 c t r hrest found first hless ih =>
    refine List.forall_mem_cons.2 ⟨fun herrors => ?_, ih (isCutBehind_statement fuel hc hrest)⟩
    exact ⟨c, _, hc, isReadAt_statement hrest ((precedes_statement fuel hrest).errors_eq_of_drop herrors)⟩
  | case3 c t r hrest found first hless =>
    exact List.forall_mem_singleton.2 fun herrors => absurd (length_lt_of_statement hc hrest herrors) hless

/-- Where there is no error, the portions are all that is ahead. -/
theorem tokens_portions_eq (hc : c.IsCutBehind) (herrors : ∀ p ∈ c.portions fuel, p.errors = []) :
    (c.portions fuel).flatMap (fun p => p.tokens) = c.rest := by
  fun_induction portions fuel c with
  | case1 c hrest => exact hrest.symm
  | case2 c t r hrest found first hless ih =>
    have hothers := ih (isCutBehind_statement fuel hc hrest) (List.forall_mem_cons.1 herrors).2
    rw [List.flatMap_cons, hothers]
    exact (precedes_statement fuel hrest).rest_eq.symm
  | case3 c t r hrest found first hless =>
    exact absurd (length_lt_of_statement hc hrest (herrors first (List.mem_singleton_self first))) hless

end Cursor

/-- **The statements of a source**, with their tokens and errors. -/
def portions (cs : List Char) : List Portion := (Cursor.start (tokens cs)).portions (depthFor (tokens cs))

end Source

open Source

namespace SourceUnit

/-- **How a source is laid out in its statements**: they stand one behind the other, each error is that of one of
them, and those without one are tiles.  Without any error they are all of the source. -/
structure IsLaidOut (cs : List Char) : Prop where
  statements : (portions cs).map (fun p => p.statement) = (Source.statements cs).1
  errors : (portions cs).flatMap Portion.errors = (ofCharacters cs).syntaxErrors
  tokens : (portions cs).flatMap (fun p => p.tokens) <+: Source.tokens cs
  whole : (ofCharacters cs).syntaxErrors = [] → (portions cs).flatMap (fun p => p.tokens) = Source.tokens cs

theorem isLaidOut (cs : List Char) : IsLaidOut cs where
  statements := Cursor.map_statement_portions _ _
  errors := Cursor.errors_portions (depthFor (tokens cs)) (Cursor.start (tokens cs))
  tokens := Cursor.tokens_portions _ _
  whole hwell := by
    have herrors := Cursor.errors_portions (depthFor (tokens cs)) (Cursor.start (tokens cs))
    refine Cursor.tokens_portions_eq (Cursor.isCutBehind_start cs) fun p hp => ?_
    exact List.flatMap_eq_nil_iff.1 (herrors.trans hwell) p hp

/-- Where a portion of a source is read. -/
theorem exists_isReadAt {cs : List Char} : ∀ p ∈ portions cs, p.errors = [] →
    ∃ c c', c.IsCutBehind ∧ p.toTile.IsReadAt (depthFor (Source.tokens cs)) c c' :=
  Cursor.exists_isReadAt (Cursor.isCutBehind_start cs)

section WellFormed

variable {cs : List Char} (hwell : (ofCharacters cs).syntaxErrors = [])

include hwell

/-- No portion of a well-formed source has an error. -/
theorem errors_eq_nil : ∀ p ∈ portions cs, p.errors = [] :=
  List.flatMap_eq_nil_iff.1 ((isLaidOut cs).errors.trans hwell)

/-- The types in its statements are types as they are read. -/
theorem isParsed_of_mem_statements : ∀ s ∈ (Source.statements cs).1, s.IsParsed := by
  rw [← (isLaidOut cs).statements]
  refine List.forall_mem_map.2 fun p hp => ?_
  obtain ⟨c, c', hc, hread⟩ := exists_isReadAt p hp (errors_eq_nil hwell p hp)
  exact hread.isParsed hc

variable {t : TypeExpr}

/-- **A type in the signature of an item** is a type as it is read. -/
theorem isParsed_of_mem_items {i : Item} (h : i ∈ (ofCharacters cs).items) (ht : t ∈ i.kind.types) :
    t.IsParsed := by
  obtain ⟨j, hj, -, hkind⟩ := @exists_item_of_mem_itemsFrom .empty _ i h
  rw [hkind] at ht
  exact isParsed_of_mem_statements hwell _ hj t ht

/-- **And so is one in an `impl` block.** -/
theorem isParsed_of_mem_impls {b : ImplBlock} (h : b ∈ (ofCharacters cs).impls) (ht : t ∈ b.types) :
    t.IsParsed := by
  obtain ⟨s, hs, hblock⟩ := List.mem_filterMap.1 h
  cases s with
  | impl block =>
    obtain rfl := Option.some.inj hblock
    exact isParsed_of_mem_statements hwell _ hs t ht
  | _ => exact absurd hblock (by simp)

end WellFormed

end SourceUnit

end ModelPool
