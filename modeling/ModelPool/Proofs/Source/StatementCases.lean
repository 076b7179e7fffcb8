import ModelPool.Proofs.Source.Names
import ModelPool.Proofs.Source.Yielding

/-!
# Proofs/Source/StatementCases — by which reader a statement is read

    #![x]  #[x]          attributes
    ;  #!/bin/sh         marks
    pub use a::b;        visibility, then a declaration
    use a::b;            a declaration
    let x = 1;  f();     neither

A statement looks ahead, without moving, until it is clear which reader is meant, and that reader reads it.  So
what holds of each of these readers holds of every statement.

* `Reader.declaration?_cases` — the readers of declarations.
* `Reader.statement_cases` — the readers of statements.
* `Reader.isSorted_statement` — what kind of statement each of them gives.
-/

namespace ModelPool.Source

/-- The line of the next token that is no comment. -/
def Cursor.nextLine (c : Cursor) : Nat := (c.ahead?.map fun t => t.start.line).getD 0

namespace Reader

variable {n : Nat} {h : Heading} {c c' : Cursor} {s : Statement}

/-! ## Looking ahead -/

theorem run_atMacroRules {b : Bool} (hrun : atMacroRules.run c = some (b, c')) : c' = c := by
  unfold atMacroRules at hrun
  obtain ⟨d, d', hget, hrun⟩ := run_bind_eq_some.1 hrun
  obtain ⟨rfl, rfl⟩ := Prod.mk.inj (Option.some.inj hget)
  split at hrun
  · exact (congrArg Prod.snd (Option.some.inj hrun)).symm
  · exact (congrArg Prod.snd (Option.some.inj hrun)).symm

theorem yields_atMacroRules {Q : Bool → Cursor → Prop} (hq : ∀ b, Q b c) : Yields atMacroRules c Q :=
  fun b _ hrun => run_atMacroRules hrun ▸ hq b

theorem yields_atFunction {Q : Bool → Cursor → Prop} (hq : ∀ b, Q b c) : Yields (atFunction n) c Q :=
  fun b _ hrun => run_atFunction hrun ▸ hq b

theorem yields_line {Q : Nat → Cursor → Prop} (hq : Q c.nextLine c) : Yields line c Q := by
  unfold Cursor.nextLine at hq
  rintro _ _ ⟨⟩
  cases hahead : c.ahead? with
  | none => simpa [hahead] using hq
  | some t => simpa [hahead] using hq

/-! ## Declarations -/

/-- Declarations of another language, or of another crate's functions. -/
def foreignBlock (n : Nat) : Reader Statement := do
  skip
  let _ ← take? .text
  if !(← optional ";") then
    expect openBrace
    let _ ← declarations n
  return .other

/-- **The readers of declarations.** -/
def declarationReaders (n : Nat) (h : Heading) : List (Reader Statement) :=
  [function n h, macroRules h, useDeclaration n h, constant n h, static n h, typeAlias n h, struct n h,
    enum n h, union n h, moduleItem n h, traitItem n h, externCrate, foreignBlock n]

/-- One of the readers of declarations reads a statement here. -/
def IsDeclaration (n : Nat) (h : Heading) (c : Cursor) (s : Statement) (c' : Cursor) : Prop :=
  ∃ m ∈ declarationReaders n h, m.run c = some (s, c')

theorem yields_declared {m : Reader Statement} (hm : m ∈ declarationReaders n h) :
    Yields (some <$> m) c fun found c' => ∀ s ∈ found, IsDeclaration n h c s c' :=
  yields_map fun s c' hrun => by
    rintro _ ⟨⟩
    exact ⟨m, hm, hrun⟩

/-- **Where a declaration is found, one of the readers has read it**; else the place is left as it was. -/
theorem declaration?_cases : Yields (declaration? (n + 1) h) c fun found c' =>
    (∀ s ∈ found, IsDeclaration n h c s c') ∧ (found = none → c' = c) := by
  have hnone : Yields (pure none : Reader (Option Statement)) c fun found c' =>
      (∀ s ∈ found, IsDeclaration n h c s c') ∧ (found = none → c' = c) :=
    yields_pure ⟨nofun, fun _ => rfl⟩
  have hfound : ∀ m ∈ declarationReaders n h, Yields (some <$> m) c fun found c' =>
      (∀ s ∈ found, IsDeclaration n h c s c') ∧ (found = none → c' = c) := fun m hm =>
    (yields_declared hm).and fun found c' hrun hfound => by
      obtain ⟨s, -, rfl⟩ := run_map_eq_some.1 hrun
      exact absurd hfound (by simp)
  unfold declaration?
  refine yields_bind (yields_textPair (yields_bind (yields_get (yields_bind (yields_atFunction fun isFunction => ?_)))))
  refine yields_if (fun _ => hfound _ (by simp [declarationReaders])) fun _ => ?_
  refine yields_bind (yields_atMacroRules fun isMacro => ?_)
  dsimp only
  refine yields_if (fun _ => yields_if (fun _ => yields_failure) fun _ =>
    hfound _ (by simp [declarationReaders])) fun _ => ?_
  split
  · exact hfound _ (by simp [declarationReaders])
  · exact yields_if (fun _ => hnone) fun _ => hfound _ (by simp [declarationReaders])
  · exact yields_if (fun _ => hfound _ (by simp [declarationReaders])) fun _ => hnone
  · exact hfound _ (by simp [declarationReaders])
  · exact hfound _ (by simp [declarationReaders])
  · exact hfound _ (by simp [declarationReaders])
  · exact yields_if (fun _ => hfound _ (by simp [declarationReaders])) fun _ => hnone
  · exact hfound _ (by simp [declarationReaders])
  · exact hfound _ (by simp [declarationReaders])
  · exact yields_if (fun _ => hfound _ (by simp [declarationReaders])) fun _ => hnone
  · refine yields_if (fun _ => hfound _ (by simp [declarationReaders])) fun _ => ?_
    have hforeign : (do
        skip
        let _ ← take? .text
        if !(← optional ";") then
          expect openBrace
          let _ ← declarations n
        return some .other : Reader (Option Statement)) = some <$> foreignBlock n := by
      simp only [foreignBlock, map_bind]
      refine bind_congr fun _ => bind_congr fun _ => bind_congr fun ended => ?_
      cases ended <;> simp
    rw [hforeign]
    exact hfound _ (by simp [declarationReaders])
  · exact hnone

/-! ## Statements -/

/-- The readers of statements that no keyword of a declaration begins. -/
def otherStatementReaders (n line : Nat) : List (Reader Statement) :=
  [letDeclaration n, implBlock n line, expressionStatement n, macroCall n]

/-- **How a statement is read** at a place. -/
inductive IsStatement (n : Nat) (c : Cursor) : Statement → Cursor → Prop where
  /-- An attribute. -/
  | innerAttribute {text : String} {c' : Cursor} (hrun : (attributeText n true).run c = some (text, c')) :
      IsStatement n c (.innerAttribute text) c'
  | outerAttribute {text : String} {c' : Cursor} (hrun : (attributeText n false).run c = some (text, c')) :
      IsStatement n c (.outerAttribute text) c'
  /-- A token that is a statement by itself. -/
  | mark {t : Token} (ht : c.ahead? = some t) : IsStatement n c .other c.forward
  /-- A declaration behind its visibility. -/
  | declaration {isPublic : Bool} {d : Cursor} {s : Statement} {c' : Cursor}
      (hvisibility : (visibility n).run c = some (isPublic, d))
      (hrun : (declaration? n ⟨c.nextLine, isPublic⟩).run d = some (some s, c')) : IsStatement n c s c'
  /-- Anything else. -/
  | other {m : Reader Statement} {d : Cursor} {s : Statement} {c' : Cursor}
      (hm : m ∈ otherStatementReaders n c.nextLine) (hd : c.Precedes d) (hrun : m.run d = some (s, c')) :
      IsStatement n c s c'

/-- **A statement is read by one of its readers.** -/
theorem statement_cases {expressions : Bool} :
    Yields (statement (n + 1) expressions) c fun s c' => IsStatement n c s c' := by
  unfold statement
  refine yields_bind (yields_line (yields_bind (yields_textPair ?_)))
  dsimp only
  refine yields_if (fun _ => ?_) fun _ => yields_bind (yields_kind (yields_if (fun hmark => ?_) fun _ => ?_))
  · exact yields_if (fun _ => yields_bind fun _ _ hrun => yields_pure (.innerAttribute hrun))
      fun _ => yields_bind fun _ _ hrun => yields_pure (.outerAttribute hrun)
  · refine yields_bind (yields_skip (yields_pure ?_))
    cases hahead : c.ahead? with
    | none => simp [hahead, textOf] at hmark
    | some t => exact .mark hahead
  · refine yields_bind fun isPublic d hvisibility => ?_
    refine yields_if (fun hpublic => ?_) fun hpublic => yields_bind fun found e hfound => ?_
    · refine yields_bind fun found e hfound => ?_
      cases found with
      | none => exact yields_failure
      | some s =>
        rw [← hpublic] at hfound
        exact yields_pure (.declaration hvisibility hfound)
    · cases found with
      | some s =>
        have hpublic : isPublic = false := by simpa using hpublic
        rw [← hpublic] at hfound
        exact yields_pure (.declaration hvisibility hfound)
      | none =>
        have he : c.Precedes e := (Moves.precedes hvisibility).trans (Moves.precedes hfound)
        have hother : ∀ m ∈ otherStatementReaders n c.nextLine,
            Yields m e fun s c' => IsStatement n c s c' := fun _ hm _ _ hrun => .other hm he hrun
        refine yields_if (fun _ => hother _ (by simp [otherStatementReaders])) fun _ => ?_
        refine yields_if (fun _ => hother _ (by simp [otherStatementReaders])) fun _ => ?_
        exact yields_if (fun _ => yields_orElse (hother _ (by simp [otherStatementReaders]))
          (hother _ (by simp [otherStatementReaders]))) fun _ => hother _ (by simp [otherStatementReaders])

end Reader

/-! ## Sorts of statements -/

/-- **An item, an `impl` block, or a statement that declares nothing.** -/
def Statement.IsLasting : Statement → Prop
  | item _ | impl _ | other => True
  | comment _ | innerAttribute _ | outerAttribute _ | use _ _ => False

namespace Reader

variable {n : Nat} {h : Heading} {c c' : Cursor} {s : Statement}

/-- Every declaration but one is such a statement. -/
theorem gives_isLasting {m : Reader Statement} (hm : m ∈ declarationReaders n h) :
    m = useDeclaration n h ∨ Gives m Statement.IsLasting := by
  simp only [declarationReaders, List.mem_cons, List.not_mem_nil, or_false] at hm
  rcases hm with rfl | rfl | rfl | rfl | rfl | rfl | rfl | rfl | rfl | rfl | rfl | rfl | rfl
  case inr.inr.inl => exact .inl rfl
  all_goals
    refine .inr ?_
    first
      | unfold function | unfold macroRules | unfold constant | unfold static | unfold typeAlias
      | unfold struct | unfold enum | unfold union | unfold externCrate | unfold foreignBlock
      | cases n <;> [exact gives_failure; first | unfold moduleItem | unfold traitItem]
    repeat' first
      | with_reducible exact gives_failure
      | with_reducible refine gives_of_forall fun _ => ?_
      | with_reducible refine gives_pure ?_
      | split
    all_goals trivial

/-- A statement that no keyword of a declaration begins is an `impl` block, or declares nothing. -/
theorem gives_of_mem_otherStatementReaders {P : Statement → Prop} (himpl : ∀ block, P (.impl block))
    (hother : P .other) {line : Nat} {m : Reader Statement} (hm : m ∈ otherStatementReaders n line) : Gives m P := by
  simp only [otherStatementReaders, List.mem_cons, List.not_mem_nil, or_false] at hm
  rcases hm with rfl | rfl | rfl | rfl
  all_goals
    first
      | unfold letDeclaration | unfold expressionStatement | unfold macroCall
      | cases n <;> [exact gives_failure; unfold implBlock]
    repeat' first
      | with_reducible refine gives_of_forall fun _ => ?_
      | with_reducible refine gives_pure ?_
      | split
    all_goals first | exact hother | exact himpl _

/-- What a `use` declaration is read from. -/
theorem exists_of_useDeclaration (hrun : (useDeclaration n h).run c = some (s, c')) :
    ∃ d tree e, (expect "use").run c = some ((), d) ∧ (useTree n).run d = some (tree, e) ∧
      (close ";").run e = some ((), c') ∧ s = .use h.line tree := by
  unfold useDeclaration at hrun
  obtain ⟨⟨⟩, d, hd, hrun⟩ := run_bind_eq_some.1 hrun
  obtain ⟨tree, e, he, hrun⟩ := run_bind_eq_some.1 hrun
  obtain ⟨⟨⟩, f, hf, hrun⟩ := run_bind_eq_some.1 hrun
  obtain ⟨rfl, rfl⟩ := Prod.mk.inj (Option.some.inj hrun)
  exact ⟨d, tree, e, hd, he, hf, rfl⟩

/-- **Of what sort a statement is that has been read**: an attribute, a `use` declaration behind its visibility,
or one that is neither. -/
inductive IsSorted (c : Cursor) : Statement → Cursor → Prop where
  | innerAttribute {fuel : Nat} {text : String} {c' : Cursor}
      (hrun : (attributeText fuel true).run c = some (text, c')) : IsSorted c (.innerAttribute text) c'
  | outerAttribute {fuel : Nat} {text : String} {c' : Cursor}
      (hrun : (attributeText fuel false).run c = some (text, c')) : IsSorted c (.outerAttribute text) c'
  | use {fuel : Nat} {isPublic : Bool} {tree : UseTree} {d e f c' : Cursor}
      (hvisibility : (visibility (fuel + 1)).run c = some (isPublic, d))
      (hkeyword : (expect "use").run d = some ((), e)) (htree : (useTree fuel).run e = some (tree, f))
      (hend : (close ";").run f = some ((), c')) : IsSorted c (.use c.nextLine tree) c'
  | lasting {s : Statement} {c' : Cursor} (hs : s.IsLasting) : IsSorted c s c'

theorem IsStatement.isSorted (hread : IsStatement n c s c') : IsSorted c s c' := by
  cases hread with
  | innerAttribute hrun => exact .innerAttribute hrun
  | outerAttribute hrun => exact .outerAttribute hrun
  | mark ht => exact .lasting trivial
  | @declaration isPublic d _ _ hvisibility hrun =>
    cases n with
    | zero => exact absurd (show none = some _ from hrun) (by simp)
    | succ n =>
      obtain ⟨m, hm, hrun⟩ := (declaration?_cases _ _ hrun).1 s rfl
      rcases gives_isLasting hm with rfl | hgives
      · obtain ⟨e, tree, f, he, hf, hend, rfl⟩ := exists_of_useDeclaration hrun
        exact .use hvisibility he hf hend
      · exact .lasting (hgives d _ hrun)
  | other hm hd hrun =>
    have hgives := gives_of_mem_otherStatementReaders (P := Statement.IsLasting) (fun _ => trivial) trivial hm
    exact .lasting (hgives _ _ hrun)

/-- **Every statement is of one of these sorts.** -/
theorem isSorted_statement {expressions : Bool} :
    Yields (statement n expressions) c fun s c' => IsSorted c s c' := by
  cases n with
  | zero => exact yields_failure
  | succ n => exact statement_cases.imp fun _ _ h => h.isSorted

end Reader

end ModelPool.Source
