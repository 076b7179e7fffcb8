import ModelPool.Source.Unit

/-!
# Proofs/Source/Moves — a reader only moves forward

Whatever a reader reads, the place it leaves lies behind the place it began at: as many tokens are taken as
are no longer ahead, and no error that has been recorded is forgotten.  A reader moves forward because its
parts do, so this is found from the parts by instances; only the recursive readers need an induction.

* `Cursor.Precedes` — a place and one behind it.
* `Reader.Moves` — the law for a reader.
-/

namespace ModelPool.Source

/-! ## Places -/

namespace Cursor

/-- **The other place lies behind this one**: what is no longer ahead has been taken. -/
def Precedes (c later : Cursor) : Prop :=
  ∃ k, later.rest = c.rest.drop k ∧ later.taken = c.taken + k ∧ c.errors <+: later.errors

theorem Precedes.refl (c : Cursor) : c.Precedes c := ⟨0, rfl, rfl, List.prefix_rfl⟩

theorem Precedes.trans {c d e : Cursor} (h : c.Precedes d) (h' : d.Precedes e) : c.Precedes e := by
  obtain ⟨k, hrest, htaken, herrors⟩ := h
  obtain ⟨l, hrest', htaken', herrors'⟩ := h'
  exact ⟨k + l, by rw [hrest', hrest, List.drop_drop], by rw [htaken', htaken, Nat.add_assoc],
    herrors.trans herrors'⟩

theorem Precedes.errors_grow {c d : Cursor} (h : c.Precedes d) : c.errors <+: d.errors := h.elim fun _ h => h.2.2

theorem precedes_passComments (c : Cursor) : c.Precedes c.passComments := by
  unfold passComments
  dsimp only
  split
  · exact .refl c
  · have hdrop : (c.rest.takeWhile Token.isComment ++ c.rest.dropWhile Token.isComment).drop _ = _ :=
      List.drop_left
    rw [List.takeWhile_append_dropWhile] at hdrop
    exact ⟨_, hdrop.symm, rfl, List.prefix_rfl⟩

theorem precedes_forward (c : Cursor) : c.Precedes c.forward := by
  refine (precedes_passComments c).trans ?_
  unfold forward
  dsimp only
  split
  · exact .refl _
  · next h => exact ⟨1, by rw [h]; rfl, rfl, List.prefix_rfl⟩

end Cursor

/-! ## Readers -/

namespace Reader

/-- **The reader only moves forward.** -/
class Moves {α : Type} (m : Reader α) : Prop where
  precedes : ∀ {c : Cursor} {a : α} {c' : Cursor}, m.run c = some (a, c') → c.Precedes c'

variable {α β : Type} {m n : Reader α} {f : α → Reader β}

theorem run_bind_eq_some {c : Cursor} {found : β × Cursor} :
    (m >>= f).run c = some found ↔ ∃ a c', m.run c = some (a, c') ∧ (f a).run c' = some found := by
  rw [StateT.run_bind]
  simp only [Option.bind_eq_bind, Option.bind_eq_some_iff, Prod.exists]

theorem run_map_eq_some {g : α → β} {c : Cursor} {b : β} {c' : Cursor} :
    (g <$> m).run c = some (b, c') ↔ ∃ a, m.run c = some (a, c') ∧ g a = b := by
  rw [StateT.run_map]
  simp [Prod.exists]

theorem run_orElse_eq_some {c : Cursor} {found : α × Cursor} (h : (m <|> n).run c = some found) :
    m.run c = some found ∨ n.run c = some found := by
  have hor : (m.run c <|> n.run c) = some found := h
  cases hfirst : m.run c with
  | some first => exact .inl (by simpa [hfirst] using hor)
  | none => exact .inr (by simpa [hfirst] using hor)

instance (a : α) : Moves (pure a) where
  precedes h := by
    obtain ⟨-, rfl⟩ := Prod.mk.inj (Option.some.inj h)
    exact .refl _

theorem moves_failure : Moves (failure : Reader α) where
  precedes h := absurd (show none = some _ from h) (by simp)

instance : Moves (failure : Reader α) := moves_failure

theorem moves_bind (hm : Moves m) (hf : ∀ a, Moves (f a)) : Moves (m >>= f) where
  precedes h := by
    obtain ⟨a, c', ha, hb⟩ := run_bind_eq_some.1 h
    exact (hm.precedes ha).trans ((hf a).precedes hb)

instance [hm : Moves m] [hf : ∀ a, Moves (f a)] : Moves (m >>= f) := moves_bind hm hf

instance [hm : Moves m] (g : α → β) : Moves (g <$> m) where
  precedes h := by
    obtain ⟨a, ha, -⟩ := run_map_eq_some.1 h
    exact hm.precedes ha

instance [hm : Moves m] [hn : Moves n] : Moves (m <|> n) where
  precedes h := (run_orElse_eq_some h).elim hm.precedes hn.precedes

theorem moves_if {p : Prop} [Decidable p] (hm : Moves m) (hn : Moves n) :
    Moves (if p then m else n) := by
  split <;> assumption

instance {p : Prop} [Decidable p] [hm : Moves m] [hn : Moves n] : Moves (if p then m else n) :=
  moves_if hm hn

instance : Moves (get : Reader Cursor) where
  precedes h := by
    obtain ⟨-, rfl⟩ := Prod.mk.inj (Option.some.inj h)
    exact .refl _

theorem moves_modify {g : Cursor → Cursor} (h : ∀ c : Cursor, c.Precedes (g c)) :
    Moves (modify g : Reader Unit) where
  precedes hrun := by
    obtain ⟨-, rfl⟩ := Prod.mk.inj (Option.some.inj hrun)
    exact h _

instance : Moves (modify Cursor.passComments : Reader Unit) :=
  moves_modify Cursor.precedes_passComments

/-! ### Single tokens -/

instance : Moves token? := by unfold token?; infer_instance

instance : Moves text := by unfold text; infer_instance

instance : Moves textPair := by unfold textPair; infer_instance

instance : Moves kind? := by unfold kind?; infer_instance

instance : Moves skip := moves_modify Cursor.precedes_forward

instance (s : String) : Moves (optional s) := by unfold optional; infer_instance

instance (s : String) : Moves (expect s) := by unfold expect; infer_instance

instance (kind : TokenKind) : Moves (take kind) := by
  unfold take
  refine moves_bind inferInstance fun t => ?_
  split <;> infer_instance

instance : Moves word := by unfold word; infer_instance

instance (kind : TokenKind) : Moves (take? kind) := by unfold take?; infer_instance

instance : Moves atEnd := by unfold atEnd; infer_instance

instance : Moves line := by unfold line; infer_instance

instance (start : Cursor) : Moves (since start) := by unfold since; infer_instance

instance (what : String) : Moves (missing what) :=
  moves_modify fun c => c.precedes_passComments.trans ⟨0, rfl, rfl, List.prefix_append _ _⟩

instance (sign : String) : Moves (close sign) := by unfold close; infer_instance

instance (sign : String) : Moves (closes sign) := by unfold closes; infer_instance

instance (sign : String) [Moves m] (fuel : Nat) : Moves (entries sign m fuel) := by
  induction fuel with
  | zero => exact moves_failure
  | succ fuel ih => unfold entries; infer_instance

instance (sign : String) [Moves m] (fuel : Nat) : Moves (list sign fuel m) := by
  unfold list; infer_instance

instance (sign : String) [Moves m] (fuel : Nat) : Moves (list1 sign fuel m) := by
  unfold list1
  refine moves_bind inferInstance fun found => ?_
  split <;> infer_instance

/-! ### Groups and attributes -/

instance (k : Nat) : Moves (skipTokens k) := moves_modify fun _ => ⟨k, rfl, rfl, List.prefix_rfl⟩

instance (quotes : Bool) : Moves (group quotes) := by
  unfold group
  refine moves_bind inferInstance fun _ => moves_bind inferInstance fun ahead =>
    moves_bind inferInstance fun c => ?_
  split <;> infer_instance

instance : Moves block := by unfold block; infer_instance

instance : Moves macroArguments := by unfold macroArguments; infer_instance

instance (ends : List String) (fuel : Nat) : Moves (skipUntil ends fuel) := by
  induction fuel with
  | zero => exact moves_failure
  | succ fuel ih =>
    unfold skipUntil
    repeat' first
      | infer_instance
      | refine moves_bind ?_ fun _ => ?_
      | split

instance (fuel : Nat) : Moves (plainPath fuel) := by
  induction fuel with
  | zero => exact moves_failure
  | succ fuel ih => unfold plainPath; infer_instance

instance (fuel : Nat) : Moves (attributeBody fuel) := by unfold attributeBody; infer_instance

instance (fuel : Nat) (inner : Bool) : Moves (attributeText fuel inner) := by
  unfold attributeText; infer_instance

instance (fuel : Nat) : Moves (skipAttributes fuel) := by
  induction fuel with
  | zero => exact moves_failure
  | succ fuel ih => unfold skipAttributes; infer_instance

/-! ## Types -/

instance (start : Cursor) : Moves (trimmedSince start) := by unfold trimmedSince; infer_instance

instance (start : Cursor) : Moves (verbatimSince start) := by unfold verbatimSince; infer_instance

instance (n : Nat) : Moves (skipFunctionModifiers n) := by
  induction n with
  | zero => exact moves_failure
  | succ n ih => unfold skipFunctionModifiers; infer_instance

instance : Moves atFunctionPointer := by unfold atFunctionPointer; infer_instance

instance : Moves receiver := by
  unfold receiver
  exact moves_bind inferInstance fun _ => moves_bind inferInstance fun _ => inferInstance

instance : Moves further := by unfold further; infer_instance

/-- **The readers for types move forward**, with so much fuel. -/
class TypesMove (n : Nat) : Prop where
  type : Moves (type n)
  furtherBounds : Moves (furtherBounds n)
  bound : Moves (bound n)
  bounds : Moves (bounds n)
  bareType : Moves (bareType n)
  objectBound : ∀ isDyn, Moves (objectBound n isDyn)
  functionPointer : Moves (functionPointer n)
  path : Moves (path n)
  pathFrom : ∀ start form soFar, Moves (pathFrom n start form soFar)
  typeArguments : Moves (typeArguments n)
  typeArgument : Moves (typeArgument n)
  typeParameters : Moves (typeParameters n)
  typeParameter : Moves (typeParameter n)
  parameters : Moves (parameters n)
  parameter : Moves (parameter n)
  typedParameter : Moves (typedParameter n)
  pattern : Moves (pattern n)
  plainPattern : Moves (plainPattern n)
  patternRange : Moves (patternRange n)
  valuePath : Moves (valuePath n)
  valueSegments : Moves (valueSegments n)

attribute [instance] TypesMove.type TypesMove.furtherBounds TypesMove.bound TypesMove.bounds
  TypesMove.bareType TypesMove.objectBound TypesMove.functionPointer TypesMove.path TypesMove.pathFrom
  TypesMove.typeArguments TypesMove.typeArgument TypesMove.typeParameters TypesMove.typeParameter
  TypesMove.parameters TypesMove.parameter TypesMove.typedParameter TypesMove.pattern
  TypesMove.plainPattern TypesMove.patternRange TypesMove.valuePath TypesMove.valueSegments

instance typesMove (n : Nat) : TypesMove n := by
  induction n with
  | zero => constructor <;> intros <;> exact moves_failure
  | succ n ih =>
    constructor <;> intros
    all_goals
      first
        | unfold type | unfold furtherBounds | unfold bound | unfold bounds | unfold bareType
        | unfold objectBound | unfold functionPointer | unfold path | unfold pathFrom
        | unfold typeArguments | unfold typeArgument | unfold typeParameters | unfold typeParameter
        | unfold parameters | unfold parameter | unfold typedParameter | unfold pattern
        | unfold plainPattern | unfold patternRange | unfold valuePath | unfold valueSegments
      repeat' first
        | infer_instance
        | refine moves_bind ?_ fun _ => ?_
        | refine moves_if ?_ ?_
        | split

instance (n : Nat) : Moves (wherePredicates n) := by
  induction n with
  | zero => exact moves_failure
  | succ n ih =>
    unfold wherePredicates
    repeat' first
      | infer_instance
      | refine moves_bind ?_ fun _ => ?_
      | refine moves_if ?_ ?_

instance (n : Nat) : Moves (whereClause n) := by unfold whereClause; infer_instance

instance (n : Nat) : Moves (typeParameters? n) := by unfold typeParameters?; infer_instance

/-! ## Expressions -/

instance (n : Nat) : Moves (skipBlockModifiers n) := by
  induction n with
  | zero => exact moves_failure
  | succ n ih => unfold skipBlockModifiers; infer_instance

instance : Moves atBlockExpression := by unfold atBlockExpression; infer_instance

/-- **The readers for expressions move forward**, with so much fuel. -/
class ExpressionsMove (n : Nat) : Prop where
  expression : ∀ structs, Moves (expression n structs)
  operations : ∀ structs, Moves (operations n structs)
  operand : ∀ structs, Moves (operand n structs)
  selections : Moves (selections n)
  closure : ∀ structs, Moves (closure n structs)
  blockExpression : Moves (blockExpression n)

attribute [instance] ExpressionsMove.expression ExpressionsMove.operations ExpressionsMove.operand
  ExpressionsMove.selections ExpressionsMove.closure ExpressionsMove.blockExpression

instance expressionsMove (n : Nat) : ExpressionsMove n := by
  induction n with
  | zero => constructor <;> intros <;> exact moves_failure
  | succ n ih =>
    constructor <;> intros
    all_goals
      first
        | unfold expression | unfold operations | unfold operand | unfold selections | unfold closure
        | unfold blockExpression
      repeat' first
        | infer_instance
        | refine moves_bind ?_ fun _ => ?_
        | refine moves_if ?_ ?_
        | split

/-! ## Fields and `use` trees -/

instance (n : Nat) : Moves (visibilityScope n) := by unfold visibilityScope; infer_instance

instance (n : Nat) : Moves (visibility n) := by unfold visibility; infer_instance

instance : Moves docsAhead := by unfold docsAhead; infer_instance

instance (n : Nat) : Moves (docsAmongAttributes n) := by
  induction n with
  | zero => exact moves_failure
  | succ n ih => unfold docsAmongAttributes; infer_instance

instance (n : Nat) (docs : List String) : Moves (namedField n docs) := by
  unfold namedField
  exact moves_bind inferInstance fun _ => inferInstance

instance (n : Nat) (found : List String) : Moves (fieldsBehind n found) := by
  induction n generalizing found with
  | zero => exact moves_failure
  | succ n ih =>
    unfold fieldsBehind
    repeat' first
      | infer_instance

instance (n : Nat) : Moves (namedFields n) := by unfold namedFields; infer_instance

instance (n : Nat) : Moves (tupleField n) := by unfold tupleField; infer_instance

instance (n : Nat) : Moves (tupleFields n) := by unfold tupleFields; infer_instance

instance (n : Nat) : Moves (variant n) := by
  unfold variant
  exact moves_bind inferInstance fun _ => moves_bind inferInstance fun _ =>
    moves_bind inferInstance fun _ => moves_bind inferInstance fun _ => inferInstance

instance (n : Nat) : Moves (variants n) := by unfold variants; infer_instance

instance (n : Nat) : Moves (usePathRest n) := by
  induction n with
  | zero => exact moves_failure
  | succ n ih => unfold usePathRest; infer_instance

instance (n : Nat) : Moves (usePath n) := by
  unfold usePath
  refine moves_bind inferInstance fun _ => moves_bind inferInstance fun _ => ?_
  exact moves_if inferInstance (moves_bind inferInstance fun _ => inferInstance)

instance (n : Nat) : Moves (useTree n) := by
  induction n with
  | zero => exact moves_failure
  | succ n ih =>
    unfold useTree
    repeat' first
      | infer_instance
      | refine moves_bind ?_ fun _ => ?_

/-! ## Statements -/

/-- Looking for a function moves nowhere. -/
theorem run_atFunction {n : Nat} {c c' : Cursor} {b : Bool}
    (h : (atFunction n).run c = some (b, c')) : c' = c := by
  obtain ⟨_, _, hget, h⟩ := run_bind_eq_some.1 h
  obtain ⟨rfl, rfl⟩ := Prod.mk.inj (Option.some.inj hget)
  rcases run_orElse_eq_some h with h | h
  · obtain ⟨_, _, -, h⟩ := run_bind_eq_some.1 h
    obtain ⟨_, _, -, h⟩ := run_bind_eq_some.1 h
    exact (congrArg Prod.snd (Option.some.inj h)).symm
  · exact (congrArg Prod.snd (Option.some.inj h)).symm

instance (n : Nat) : Moves (atFunction n) where
  precedes h := run_atFunction h ▸ .refl _

instance : Moves atMacroRules := by
  unfold atMacroRules
  refine moves_bind inferInstance fun c => ?_
  split <;> infer_instance

instance (n : Nat) : Moves (initialValue n) := by unfold initialValue; infer_instance

instance (h : Heading) : Moves (macroRules h) := by
  unfold macroRules
  exact moves_bind inferInstance fun _ => moves_bind inferInstance fun _ => inferInstance

instance : Moves externCrate := by
  unfold externCrate
  exact moves_bind inferInstance fun _ => moves_bind inferInstance fun _ => inferInstance

instance (n : Nat) : Moves (letDeclaration n) := by
  unfold letDeclaration
  repeat' first
    | infer_instance
    | refine moves_bind ?_ fun _ => ?_
    | refine moves_if ?_ ?_

instance (n : Nat) : Moves (macroCall n) := by unfold macroCall; infer_instance

instance (n : Nat) : Moves (expressionStatement n) := by unfold expressionStatement; infer_instance

instance (n : Nat) : Moves (implementedTrait? n) := by
  have hfound : Moves (do
      let _ ← optional "!"
      let (form, found) ← path n
      if form = .function || form = .invocation || form = .primitive then failure
      expect "for"
      return some found : Reader (Option TypeExpr)) :=
    moves_bind inferInstance fun _ => moves_bind inferInstance fun _ => inferInstance
  unfold implementedTrait?
  infer_instance

/-- **The readers for declarations without others inside move forward.** -/
class DeclarationsMove (n : Nat) (h : Heading) : Prop where
  function : Moves (function n h)
  constant : Moves (constant n h)
  static : Moves (static n h)
  typeAlias : Moves (typeAlias n h)
  struct : Moves (struct n h)
  enum : Moves (enum n h)
  union : Moves (union n h)
  useDeclaration : Moves (useDeclaration n h)

attribute [instance] DeclarationsMove.function DeclarationsMove.constant DeclarationsMove.static
  DeclarationsMove.typeAlias DeclarationsMove.struct DeclarationsMove.enum DeclarationsMove.union
  DeclarationsMove.useDeclaration

instance declarationsMove (n : Nat) (h : Heading) : DeclarationsMove n h := by
  constructor
  all_goals
    first
      | unfold function | unfold constant | unfold static | unfold typeAlias | unfold struct
      | unfold enum | unfold union | unfold useDeclaration
    repeat' first
      | infer_instance
      | refine moves_bind ?_ fun _ => ?_
      | refine moves_if ?_ ?_

/-- **The readers for statements move forward**, with so much fuel. -/
class StatementsMove (n : Nat) : Prop where
  statement : ∀ expressions, Moves (statement n expressions)
  declaration? : ∀ h, Moves (declaration? n h)
  declarations : Moves (declarations n)
  moduleItem : ∀ h, Moves (moduleItem n h)
  traitItem : ∀ h, Moves (traitItem n h)
  implBlock : ∀ line, Moves (implBlock n line)

attribute [instance] StatementsMove.statement StatementsMove.declaration? StatementsMove.declarations
  StatementsMove.moduleItem StatementsMove.traitItem StatementsMove.implBlock

instance statementsMove (n : Nat) : StatementsMove n := by
  induction n with
  | zero => constructor <;> intros <;> exact moves_failure
  | succ n ih =>
    constructor <;> intros
    all_goals
      first
        | unfold statement | unfold declaration? | unfold declarations | unfold moduleItem
        | unfold traitItem | unfold implBlock
      repeat' first
        | infer_instance
        | refine moves_bind ?_ fun _ => ?_
        | refine moves_if ?_ ?_
        | split

/-! ## Sources -/

instance (fuel : Nat) : Moves (aliasHead fuel) := by unfold aliasHead; infer_instance

/-- **A type without a name is told of**, and its alias is kept. -/
theorem namelessAlias_cases {fuel : Nat} {c : Cursor} {found : Statement × Cursor}
    (h : (namelessAlias fuel).run c = some found) :
    (∃ i, found.1 = .item i ∧ i.kind = .typeAlias (.path [] [])) ∧ c.Precedes found.2 ∧
      c.errors.length < found.2.errors.length := by
  obtain ⟨⟨heading, name, generics⟩, d, hhead, h⟩ := run_bind_eq_some.1 h
  obtain ⟨⟨⟩, e, hmissing, h⟩ := run_bind_eq_some.1 h
  obtain ⟨⟨⟩, f, hend, h⟩ := run_bind_eq_some.1 h
  obtain rfl := Option.some.inj h
  have hcd := Moves.precedes hhead
  have hef := Moves.precedes hend
  refine ⟨⟨_, rfl, rfl⟩, hcd.trans ((Moves.precedes hmissing).trans hef), ?_⟩
  have hnew : d.errors.length < e.errors.length := by
    obtain rfl := (Prod.mk.inj (Option.some.inj hmissing)).2
    exact Nat.lt_of_le_of_lt d.precedes_passComments.errors_grow.length_le (by simp)
  exact Nat.lt_of_lt_of_le (Nat.lt_of_le_of_lt hcd.errors_grow.length_le hnew) hef.errors_grow.length_le

end Reader

namespace Cursor

variable {fuel : Nat} {c : Cursor} {t : Token} {r : List Token}

/-- **The next statement of a source**, with the place behind it: a comment, what a reader finds, or a malformed
one, which brings an error. -/
inductive IsNext (fuel : Nat) (c : Cursor) (t : Token) (r : List Token) : Statement × Cursor → Prop where
  | comment (ht : t.isComment = true) :
      IsNext fuel c t r (.comment t.text, { c with rest := r, taken := c.taken + 1, stop := t.stop })
  | statement {found : Statement × Cursor} (ht : t.isComment = false)
      (hread : (Reader.statement fuel true).run c = some found) : IsNext fuel c t r found
  | malformed {found : Statement × Cursor}
      (hfound : found.1 = .other ∨ ∃ i, found.1 = .item i ∧ i.kind = .typeAlias (.path [] []))
      (hbehind : c.Precedes found.2) (herrors : c.errors.length < found.2.errors.length) :
      IsNext fuel c t r found

theorem precedes_passLine (hrest : c.rest = t :: r) : c.Precedes (c.passLine t r) := by
  refine ⟨(r.takeWhile fun u => u.start.line == t.start.line).length + 1, ?_, rfl, List.prefix_append _ _⟩
  have hsplit := congrArg (List.drop (r.takeWhile fun u => u.start.line == t.start.line).length)
    (List.takeWhile_append_dropWhile (p := fun u => u.start.line == t.start.line) (l := r))
  rw [List.drop_left] at hsplit
  rw [hrest, List.drop_succ_cons]
  exact hsplit

theorem isNext_statement (fuel : Nat) (hrest : c.rest = t :: r) : IsNext fuel c t r (c.statement fuel t r) := by
  unfold statement
  split
  · next ht => exact .comment ht
  · next ht =>
    split
    · next hread => exact .statement (Bool.eq_false_iff.2 ht) hread
    · cases hnameless : (Reader.namelessAlias fuel).run c with
      | none => exact .malformed (.inl rfl) (precedes_passLine hrest) (by simp [passLine])
      | some found =>
        obtain ⟨hfound, hbehind, herrors⟩ := Reader.namelessAlias_cases hnameless
        exact .malformed (.inr hfound) hbehind herrors

/-- It takes tokens from ahead, and no error is forgotten. -/
theorem IsNext.precedes {found : Statement × Cursor} (h : IsNext fuel c t r found) (hrest : c.rest = t :: r) :
    c.Precedes found.2 := by
  cases h with
  | comment _ => exact ⟨1, by rw [hrest]; rfl, rfl, List.prefix_rfl⟩
  | statement _ hread => exact Reader.Moves.precedes hread
  | malformed _ hbehind _ => exact hbehind

end Cursor

end ModelPool.Source
