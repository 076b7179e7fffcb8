import ModelPool.Proofs.Source.Names
import ModelPool.Proofs.Source.TypeYielding

/-!
# Proofs/Source/UnitYielding — the types of a source

A type is written only behind a keyword, and the tokens behind a keyword are those of a text, whatever the
source begins with.  So every type that stands in the signature of an item, of an `impl` block or of one of
its members is one that is read from such tokens, unless the statement is malformed.

* `Reader.statementsYield` — the law for the readers of statements.
* `isCutBehind_statement` — the next statement begins where it can be applied again.
-/

namespace ModelPool

/-- The types in the signature of a member of an `impl` block. -/
def Member.types : Member → List TypeExpr
  | .function _ signature _ => signature.params ++ signature.output.toList
  | .const _ t _ | .type _ t _ => [t]

/-- The types of an `impl` block and of its members. -/
def ImplBlock.types (b : ImplBlock) : List TypeExpr :=
  b.selfType :: (b.traitRef.toList ++ b.members.flatMap Member.types)

namespace Source

open TypeExpr

/-! ## Places in a source -/

namespace Cursor

/-- **The tokens behind the next one are those of a text**; what a source begins with may be no lexeme. -/
def IsCutBehind (c : Cursor) : Prop := ∃ p cs, c.rest.tail = tokensFrom p cs

variable {c d : Cursor} {t : Token}

theorem IsCutBehind.of_drop {ts us : List Token} {p : Position} {cs : List Char}
    (h : ts.tail = tokensFrom p cs) (k : Nat) (hdrop : us = ts.drop k) :
    ∃ q cs', us.tail = tokensFrom q cs' := by
  obtain ⟨q, cs', hq⟩ := exists_tokensFrom_drop p cs k
  exact ⟨q, cs', by rw [hdrop, List.tail_drop, ← hq, ← h, List.drop_tail]⟩

theorem IsCutBehind.of_precedes (hc : c.IsCutBehind) (h : c.Precedes d) : d.IsCutBehind := by
  obtain ⟨p, cs, hrest⟩ := hc
  obtain ⟨k, hdrop, -⟩ := h
  exact IsCutBehind.of_drop hrest k hdrop

/-- Behind a token that has been passed over the tokens are those of a text. -/
theorem IsCutBehind.forward (hc : c.IsCutBehind) (ht : c.ahead? = some t) : c.forward.IsCut := by
  obtain ⟨p, cs, hrest⟩ := hc
  obtain ⟨comments, hpassed, -⟩ := exists_passed_forward ht
  obtain ⟨q, cs', hq⟩ := exists_tokensFrom_drop p cs comments.length
  refine ⟨q, cs', ?_⟩
  rw [← hq, ← hrest, hpassed.rest]
  cases comments <;> simp

theorem IsCut.isCutBehind (hc : c.IsCut) : c.IsCutBehind := by
  obtain ⟨p, cs, hrest⟩ := hc
  rw [IsCutBehind, hrest, ← List.drop_one]
  exact exists_tokensFrom_drop p cs 1

theorem isCutBehind_start (cs : List Char) : (start (tokens cs)).IsCutBehind := by
  have hdrop : ∀ p cs, ∃ q cs', (tokensFrom p cs).tail = tokensFrom q cs' := fun p cs => by
    rw [← List.drop_one]
    exact exists_tokensFrom_drop p cs 1
  have hnil : ∃ q cs', ([] : List Token) = tokensFrom q cs' :=
    ⟨.origin, [], (tokensFrom_of_spaces .origin List.all_nil).symm⟩
  show ∃ p cs', (tokens cs).tail = tokensFrom p cs'
  unfold tokens
  split
  · exact hnil
  · next c r =>
    split
    · split
      · exact hnil
      · next t ts hts =>
        have hrest := hdrop (Position.origin.next c) r
        rwa [hts] at hrest
    · split
      · exact ⟨_, _, rfl⟩
      · exact hdrop _ _

end Cursor

/-! ## Types in lists -/

namespace Reader

variable {n : Nat} {h : Heading} {c : Cursor}

/-- Behind a sign that has to be ahead the tokens are those of a text. -/
theorem yields_behind {α : Type} {f : Unit → Reader α} {Q : α → Cursor → Prop} {s : String} (hs : s ≠ "")
    (hc : c.IsCutBehind) (hf : ∀ d : Cursor, d.IsCut → Yields (f ()) d Q) :
    Yields (expect s >>= f) c Q := by
  refine yields_bind (yields_expect fun htext => ?_)
  cases hahead : c.ahead? with
  | none => exact absurd (by simpa [textOf, hahead] using htext.symm) hs
  | some t => exact hf _ (hc.forward hahead)

theorem yields_type_cut (hc : c.IsCut) : Yields (type n) c fun t _ => t.IsParsed := (typesYield n).type hc

theorem yields_typedParameter (hc : c.IsCut) : Yields (typedParameter n) c fun ts _ => ∀ t ∈ ts, t.IsParsed := by
  cases n with
  | zero => exact yields_failure
  | succ n =>
    unfold typedParameter
    refine yields_past fun _ d hd => yields_past fun _ e he => yields_past fun dots f hf => ?_
    refine yields_if (fun _ => yields_pure (by simp)) fun _ => ?_
    exact yields_then (yields_type_cut (((hc.of_precedes hd).of_precedes he).of_precedes hf)) fun t _ _ ht =>
      yields_pure (by simpa using ht)

theorem yields_parameter (hc : c.IsCut) : Yields (parameter n) c fun ts _ => ∀ t ∈ ts, t.IsParsed := by
  cases n with
  | zero => exact yields_failure
  | succ n =>
    have hreceiver : ∀ {d : Cursor}, Yields receiver d fun ts _ => ∀ t ∈ ts, TypeExpr.IsParsed t := by
      unfold receiver
      refine yields_past fun _ _ _ => yields_past fun _ _ _ => yields_past fun _ _ _ =>
        yields_past fun _ _ _ => yields_past fun _ _ _ => ?_
      exact yields_if (fun _ => yields_pure (by simp)) fun _ => yields_failure
    have hfurther : ∀ {d : Cursor}, Yields further d fun ts _ => ∀ t ∈ ts, TypeExpr.IsParsed t := by
      unfold further
      exact yields_past fun _ _ _ => yields_pure (by simp)
    have hlast : ∀ {d : Cursor}, d.IsCut → Yields
        (receiver <|> further <|> typedParameter n <|> (do let _ ← type n; return [])) d
        fun ts _ => ∀ t ∈ ts, TypeExpr.IsParsed t := fun hd =>
      yields_orElse hreceiver (yields_orElse hfurther (yields_orElse (yields_typedParameter hd)
        (yields_past fun _ _ _ => yields_pure (by simp))))
    unfold parameter
    refine yields_past fun _ d hd => ?_
    dsimp only
    exact yields_if (fun _ => yields_past fun _ _ he => hlast ((hc.of_precedes hd).of_precedes he))
      fun _ => hlast (hc.of_precedes hd)

/-- **The parameters of a function.** -/
theorem yields_parameters (hc : c.IsCut) : Yields (parameters n) c fun ts _ => ∀ t ∈ ts, t.IsParsed := by
  cases n with
  | zero => exact yields_failure
  | succ n =>
    have hflat : ∀ {found : List (List TypeExpr)} {d : Cursor}, (∀ ts ∈ found, ∀ t ∈ ts, t.IsParsed) →
        Yields (do expect ")"; return found.flatten) d fun ts _ => ∀ t ∈ ts, TypeExpr.IsParsed t := by
      refine fun hfound => yields_past fun _ _ _ => yields_pure fun t ht => ?_
      obtain ⟨ts, hts, ht⟩ := List.mem_flatten.1 ht
      exact hfound ts hts t ht
    unfold parameters
    refine yields_past fun _ d hd => yields_past fun _ e he => ?_
    refine yields_if (fun _ => yields_bind (yields_pure (hflat (by simp)))) fun _ => ?_
    have hcut := (hc.of_precedes hd).of_precedes he
    exact yields_then (yields_entries yields_parameter ")" hcut) fun found _ _ hfound => hflat hfound

/-! ## Fields -/

/-- The types of these fields are types as they are read. -/
def FieldsParsed (fs : Fields) : Prop := ∀ t ∈ fs.types, t.IsParsed

theorem yields_namedField {docs : List String} (hc : c.IsCut) :
    Yields (namedField n docs) c fun f _ => f.type.IsParsed := by
  unfold namedField
  refine yields_past fun _ d hd => yields_past fun _ e he => yields_past fun _ f hf => yields_past fun _ g hg => ?_
  have hcut := (((hc.of_precedes hd).of_precedes he).of_precedes hf).of_precedes hg
  exact yields_then (yields_type_cut hcut) fun t _ _ ht => yields_pure ht

theorem yields_fieldsBehind {found : List String} (hc : c.IsCut) :
    Yields (fieldsBehind n found) c fun fs _ => ∀ f ∈ fs, f.type.IsParsed := by
  induction n generalizing c found with
  | zero => exact yields_failure
  | succ n ih =>
    unfold fieldsBehind
    refine yields_past fun _ d hd => yields_past fun _ e he => ?_
    dsimp only
    refine yields_if (fun _ => yields_pure (by simp)) fun _ => yields_past fun _ f hf => ?_
    have hcut := ((hc.of_precedes hd).of_precedes he).of_precedes hf
    refine yields_then (yields_namedField hcut) fun field g hg hfield => ?_
    refine yields_past fun _ k hk => yields_past fun _ l hl => ?_
    have hcut := ((hcut.of_precedes hg).of_precedes hk).of_precedes hl
    refine yields_if (fun _ => ?_) fun _ => yields_pure (by simpa using hfield)
    exact yields_then (ih hcut) fun others _ _ hothers => yields_pure (List.forall_mem_cons.2 ⟨hfield, hothers⟩)

theorem yields_namedFields (hc : c.IsCut) : Yields (namedFields n) c fun fs _ => FieldsParsed fs := by
  have hnamed : ∀ {fs : List Field} {d : Cursor}, (∀ f ∈ fs, f.type.IsParsed) →
      Yields (do close closeBrace; return Fields.named fs) d fun fs _ => FieldsParsed fs := by
    refine fun hfs => yields_past fun _ _ _ => yields_pure fun t ht => ?_
    obtain ⟨f, hf, rfl⟩ := List.mem_map.1 ht
    exact hfs f hf
  unfold namedFields
  refine yields_past fun _ d hd => yields_past fun _ e he => ?_
  refine yields_if (fun _ => yields_bind (yields_pure (hnamed (by simp)))) fun _ => ?_
  exact yields_then (yields_fieldsBehind ((hc.of_precedes hd).of_precedes he)) fun fs _ _ hfs => hnamed hfs

theorem yields_tupleField (hc : c.IsCut) : Yields (tupleField n) c fun t _ => t.IsParsed := by
  unfold tupleField
  refine yields_past fun _ d hd => yields_past fun _ e he => ?_
  exact yields_type_cut ((hc.of_precedes hd).of_precedes he)

theorem yields_tupleFields (hc : c.IsCut) : Yields (tupleFields n) c fun fs _ => FieldsParsed fs := by
  have htuple : ∀ {ts : List TypeExpr} {d : Cursor}, (∀ t ∈ ts, t.IsParsed) →
      Yields (do expect ")"; return Fields.tuple ts) d fun fs _ => FieldsParsed fs :=
    fun hts => yields_past fun _ _ _ => yields_pure hts
  unfold tupleFields
  refine yields_past fun _ d hd => yields_past fun _ e he => ?_
  refine yields_if (fun _ => yields_bind (yields_pure (htuple (by simp)))) fun _ => ?_
  have hcut := (hc.of_precedes hd).of_precedes he
  exact yields_then (yields_entries yields_tupleField ")" hcut) fun ts _ _ hts => htuple hts

theorem yields_variant (hc : c.IsCut) : Yields (variant n) c fun v _ => FieldsParsed v.fields := by
  have hlast : ∀ {name : String} {fs : Fields} {d : Cursor}, FieldsParsed fs → Yields (do
      if ← optional "=" then expression n true
      return (⟨name, fs⟩ : Variant)) d fun v _ => FieldsParsed v.fields := by
    refine fun hfs => yields_past fun _ _ _ => ?_
    exact yields_if (fun _ => yields_past fun _ _ _ => yields_pure hfs) fun _ => yields_pure hfs
  unfold variant
  refine yields_past fun _ d hd => yields_past fun _ e he => yields_past fun _ f hf => yields_past fun _ g hg => ?_
  have hcut := (((hc.of_precedes hd).of_precedes he).of_precedes hf).of_precedes hg
  refine yields_if (fun _ => yields_then (yields_namedFields hcut) fun fs _ _ hfs => hlast hfs) fun _ => ?_
  refine yields_if (fun _ => yields_then (yields_tupleFields hcut) fun fs _ _ hfs => hlast hfs) fun _ => ?_
  exact yields_bind (yields_pure (hlast (by simp [FieldsParsed, Fields.types])))

theorem yields_variants (hc : c.IsCut) :
    Yields (variants n) c fun vs _ => ∀ v ∈ vs, FieldsParsed v.fields := by
  unfold variants list
  refine yields_past fun _ d hd => yields_past fun _ e he => ?_
  have hcut := (hc.of_precedes hd).of_precedes he
  refine yields_if (fun _ => yields_bind (yields_pure (yields_past fun _ _ _ => yields_pure (by simp)))) fun _ => ?_
  exact yields_then (yields_entries yields_variant closeBrace hcut) fun vs _ _ hvs =>
    yields_past fun _ _ _ => yields_pure hvs

end Reader

/-! ## Statements -/

/-- The types that a statement writes. -/
def Statement.types : Statement → List TypeExpr
  | .item i => i.kind.types
  | .impl b => b.types
  | .comment _ | .innerAttribute _ | .outerAttribute _ | .use _ _ | .other => []

/-- **Every type that a statement writes is a type as it is read.** -/
def Statement.IsParsed (s : Statement) : Prop := ∀ t ∈ s.types, t.IsParsed

theorem isParsed_of_types {s : Statement} (h : s.types = []) : s.IsParsed := by
  simp [Statement.IsParsed, h]

/-- The types of a member are those of the statement that it stands in. -/
theorem Statement.types_of_member? {s : Statement} {m : Member} (h : s.member? = some m) :
    m.types = s.types := by
  cases s with
  | item i =>
    unfold member? at h
    dsimp only at h
    split at h <;> simp only [Option.some.injEq, reduceCtorEq] at h
    all_goals
      next hkind =>
        subst h
        simp [types, hkind, Member.types, ItemKind.types]
  | _ => exact absurd h (by simp [member?])

namespace Reader

variable {n : Nat} {h : Heading} {c : Cursor}

theorem types_item {name : String} {generics : List String} {kind : ItemKind} :
    (h.item name generics kind).types = kind.types := rfl

/-- The readers of statements that write no types. -/
def otherReaders (n : Nat) (h : Heading) : List (Reader Statement) :=
  [union n h, macroRules h, useDeclaration n h, externCrate, letDeclaration n, macroCall n,
    expressionStatement n]

theorem gives_of_mem_otherReaders {m : Reader Statement} (hm : m ∈ otherReaders n h) :
    Gives m fun s => s.types = [] := by
  simp only [otherReaders, List.mem_cons, List.not_mem_nil, or_false] at hm
  rcases hm with rfl | rfl | rfl | rfl | rfl | rfl | rfl
  all_goals
    first
      | unfold union | unfold macroRules | unfold useDeclaration | unfold externCrate
      | unfold letDeclaration | unfold macroCall | unfold expressionStatement
    repeat' first
      | with_reducible refine gives_of_forall fun _ => ?_
      | with_reducible refine gives_pure ?_
      | split
    all_goals rfl

/-- Neither do the readers of modules and traits. -/
theorem gives_nested : ∀ m ∈ [moduleItem n h, traitItem n h], Gives m fun s => s.types = [] := by
  intro m hm
  simp only [List.mem_cons, List.not_mem_nil, or_false] at hm
  cases n with
  | zero => rcases hm with rfl | rfl <;> exact gives_failure
  | succ n =>
    rcases hm with rfl | rfl
    all_goals
      first
        | unfold moduleItem | unfold traitItem
      repeat' first
        | with_reducible refine gives_of_forall fun _ => ?_
        | with_reducible refine gives_pure ?_
        | split
      all_goals rfl

theorem yields_other {m : Reader Statement} (hm : m ∈ otherReaders n h ++ [moduleItem n h, traitItem n h]) :
    Yields m c fun s _ => s.IsParsed := fun s c' hrun =>
  isParsed_of_types ((List.mem_append.1 hm).elim gives_of_mem_otherReaders (gives_nested m) c (s, c') hrun)

/-! ### Items -/

theorem yields_function (hc : c.IsCutBehind) : Yields (function n h) c fun s _ => s.IsParsed := by
  have hlast : ∀ {name : String} {generics : List String} {ps : List TypeExpr} {output : Option TypeExpr}
      {d : Cursor}, (∀ t ∈ ps, t.IsParsed) → (∀ t ∈ output, t.IsParsed) → Yields (do
        whereClause n
        if !(← optional ";") then block
        return h.item name generics (.function ⟨generics, ps, output⟩)) d fun s _ => s.IsParsed := by
    intro name generics ps output d hps houtput
    have hall : (h.item name generics (.function ⟨generics, ps, output⟩)).IsParsed := by
      refine List.forall_mem_append.2 ⟨hps, fun t ht => houtput t ?_⟩
      simpa using ht
    refine yields_past fun _ _ _ => yields_past fun _ _ _ => ?_
    exact yields_if (fun _ => yields_past fun _ _ _ => yields_pure hall) fun _ => yields_pure hall
  unfold function
  refine yields_past fun _ d hd => yields_behind (by simp) (hc.of_precedes hd) fun e he => ?_
  refine yields_past fun name f hf => yields_past fun generics g hg => ?_
  have hcut := (he.of_precedes hf).of_precedes hg
  refine yields_then (yields_parameters hcut) fun ps k hk hps => yields_past fun arrow l hl => ?_
  refine yields_if (fun _ => ?_) fun _ => yields_bind (yields_pure (hlast hps nofun))
  refine yields_bind (yields_map ((yields_type_cut ((hcut.of_precedes hk).of_precedes hl)).imp fun t _ ht => ?_))
  exact hlast hps (by rintro _ ⟨⟩; exact ht)

theorem yields_constant (hc : c.IsCutBehind) : Yields (constant n h) c fun s _ => s.IsParsed := by
  unfold constant
  refine yields_behind (by simp) hc fun d hd => yields_past fun _ e he => yields_past fun _ f hf => ?_
  refine yields_then (yields_type_cut ((hd.of_precedes he).of_precedes hf)) fun t _ _ ht => ?_
  exact yields_past fun _ _ _ => yields_pure (by simpa [Statement.IsParsed, types_item, ItemKind.types] using ht)

theorem yields_static (hc : c.IsCutBehind) : Yields (static n h) c fun s _ => s.IsParsed := by
  have hlast : ∀ {d : Cursor}, d.IsCut → Yields (do
      let name ← word
      expect ":"
      let type ← type n
      initialValue n
      return h.item name [] (.static type)) d fun s _ => s.IsParsed := by
    refine fun hd => yields_past fun _ e he => yields_past fun _ f hf => ?_
    refine yields_then (yields_type_cut ((hd.of_precedes he).of_precedes hf)) fun t _ _ ht => ?_
    exact yields_past fun _ _ _ => yields_pure (by simpa [Statement.IsParsed, types_item, ItemKind.types] using ht)
  have hmark : ∀ {d : Cursor}, d.IsCut → Yields (do
      if (← textPair).2 != ":" then expect "mut"
      let name ← word
      expect ":"
      let type ← type n
      initialValue n
      return h.item name [] (.static type)) d fun s _ => s.IsParsed := by
    refine fun hd => yields_past fun _ e he => ?_
    have he := hd.of_precedes he
    exact yields_if (fun _ => yields_past fun _ _ hf => hlast (he.of_precedes hf)) fun _ => hlast he
  unfold static
  refine yields_behind (by simp) hc fun d hd => yields_past fun _ e he => ?_
  have he := hd.of_precedes he
  dsimp only
  exact yields_if (fun _ => yields_past fun _ _ hf => hmark (he.of_precedes hf)) fun _ => hmark he

theorem yields_typeAlias (hc : c.IsCutBehind) : Yields (typeAlias n h) c fun s _ => s.IsParsed := by
  have hrest : ∀ {name : String} {generics : List String} {d : Cursor}, d.IsCut → Yields (do
      whereClause n
      if ← optional "=" then
        let type ← type n
        whereClause n
        close ";"
        return h.item name generics (.typeAlias type)
      else
        if h.isPublic then failure
        close ";"
        return .other) d fun s _ => s.IsParsed := by
    refine fun hd => yields_past fun _ e he => yields_past fun _ f hf => yields_if (fun _ => ?_) fun _ => ?_
    · refine yields_then (yields_type_cut ((hd.of_precedes he).of_precedes hf)) fun t _ _ ht => ?_
      refine yields_past fun _ _ _ => yields_past fun _ _ _ => yields_pure ?_
      simpa [Statement.IsParsed, types_item, ItemKind.types] using ht
    · dsimp only
      exact yields_if (fun _ => yields_bind yields_failure) fun _ => yields_past fun _ _ _ =>
        yields_pure (isParsed_of_types rfl)
  unfold typeAlias
  refine yields_behind (by simp) hc fun d hd => yields_past fun _ e he => yields_past fun _ f hf =>
    yields_past fun _ g hg => ?_
  have hg := ((hd.of_precedes he).of_precedes hf).of_precedes hg
  exact yields_if (fun _ => yields_past fun _ _ hk => hrest (hg.of_precedes hk)) fun _ => hrest hg

theorem yields_struct (hc : c.IsCutBehind) : Yields (struct n h) c fun s _ => s.IsParsed := by
  have hlast : ∀ {name : String} {generics : List String} {fs : Fields} {d : Cursor}, FieldsParsed fs →
      Yields (pure (h.item name generics (.struct fs))) d fun s _ => s.IsParsed :=
    fun hfs => yields_pure hfs
  unfold struct
  refine yields_behind (by simp) hc fun d hd => yields_past fun _ e he => yields_past fun _ f hf =>
    yields_past fun _ g hg => ?_
  have hcut := ((hd.of_precedes he).of_precedes hf).of_precedes hg
  dsimp only
  refine yields_if (fun _ => yields_then (yields_tupleFields hcut) fun fs _ _ hfs => ?_) fun _ =>
    yields_if (fun _ => yields_past fun _ k hk => ?_) fun _ => yields_past fun _ _ _ => ?_
  · exact yields_past fun _ _ _ => yields_past fun _ _ _ => yields_bind (yields_pure (hlast hfs))
  · exact yields_then (yields_namedFields (hcut.of_precedes hk)) fun fs _ _ hfs => hlast hfs
  · exact yields_bind (yields_pure (hlast (by simp [FieldsParsed, Fields.types])))

theorem yields_enum (hc : c.IsCutBehind) : Yields (enum n h) c fun s _ => s.IsParsed := by
  unfold enum
  refine yields_behind (by simp) hc fun d hd => yields_past fun _ e he => yields_past fun _ f hf =>
    yields_past fun _ g hg => ?_
  have hcut := ((hd.of_precedes he).of_precedes hf).of_precedes hg
  refine yields_then (yields_variants hcut) fun vs _ _ hvs => yields_pure fun t ht => ?_
  obtain ⟨v, hv, ht⟩ := List.mem_flatMap.1 ht
  exact hvs v hv t ht

/-! ### Statements with statements inside -/

/-- The trait of a block. -/
theorem yields_implementedTrait? (hc : c.IsCut) :
    Yields (implementedTrait? n) c fun found _ => ∀ t ∈ found, t.IsParsed := by
  unfold implementedTrait?
  refine yields_orElse (yields_past fun _ d hd => ?_) (yields_pure nofun)
  refine yields_then ((typesYield n).path (hc.of_precedes hd)) fun found _ _ hfound => ?_
  refine yields_if (fun _ => yields_bind yields_failure) fun _ => yields_past fun _ _ _ => yields_pure ?_
  rintro _ ⟨⟩
  exact hfound.2

/-- **The readers for statements yield types that are read**, with so much fuel. -/
structure StatementsYield (n : Nat) : Prop where
  statement : ∀ {c : Cursor} {expressions : Bool}, c.IsCutBehind →
    Yields (statement n expressions) c fun s _ => s.IsParsed
  declaration? : ∀ {c : Cursor} {h : Heading}, c.IsCutBehind →
    Yields (declaration? n h) c fun found _ => ∀ s ∈ found, s.IsParsed
  declarations : ∀ {c : Cursor}, c.IsCutBehind → Yields (declarations n) c fun ss _ => ∀ s ∈ ss, s.IsParsed
  implBlock : ∀ {c : Cursor} {line : Nat}, c.IsCutBehind → Yields (implBlock n line) c fun s _ => s.IsParsed

theorem yields_declarations (ih : StatementsYield n) (hc : c.IsCutBehind) :
    Yields (declarations (n + 1)) c fun ss _ => ∀ s ∈ ss, s.IsParsed := by
  unfold declarations
  refine yields_past fun _ d hd => ?_
  have hd := hc.of_precedes hd
  refine yields_if (fun _ => yields_past fun _ _ _ => yields_pure (by simp)) fun _ => ?_
  refine yields_then (ih.statement hd) fun first e he hfirst => ?_
  refine yields_then (ih.declarations (hd.of_precedes he)) fun others _ _ hothers => ?_
  exact yields_pure (List.forall_mem_cons.2 ⟨hfirst, hothers⟩)

theorem yields_implBlock {line : Nat} (ih : StatementsYield n) (hc : c.IsCutBehind) :
    Yields (implBlock (n + 1) line) c fun s _ => s.IsParsed := by
  unfold implBlock
  refine yields_past fun _ d hd => yields_behind (by simp) (hc.of_precedes hd) fun e he => ?_
  refine yields_past fun generics f hf => ?_
  refine yields_then (yields_implementedTrait? (he.of_precedes hf)) fun traitRef g hg htrait => ?_
  have hcut := (he.of_precedes hf).of_precedes hg
  refine yields_then (yields_type_cut hcut) fun self k hk hself => yields_past fun _ l hl => yields_past fun _ m hm => ?_
  have hcut := ((hcut.of_precedes hk).of_precedes hl).of_precedes hm
  have hblock : ∀ {members : List Member}, (∀ m ∈ members, ∀ t ∈ m.types, t.IsParsed) →
      (Statement.impl ⟨generics, traitRef, self, members, line⟩).IsParsed := by
    refine fun hmembers => List.forall_mem_cons.2 ⟨hself, List.forall_mem_append.2 ⟨fun t ht => ?_, fun t ht => ?_⟩⟩
    · exact htrait t (Option.mem_toList.1 ht)
    · obtain ⟨m, hm, ht⟩ := List.mem_flatMap.1 ht
      exact hmembers m hm t ht
  dsimp only
  refine yields_if (fun _ => yields_bind (yields_pure (yields_pure (hblock (by simp))))) fun _ => ?_
  refine yields_past fun _ p hp => ?_
  refine yields_then (ih.declarations (hcut.of_precedes hp).isCutBehind) fun found _ _ hfound => ?_
  refine yields_bind (yields_pure (yields_pure (hblock fun m hm => ?_)))
  obtain ⟨s, hs, hmember⟩ := List.mem_filterMap.1 hm
  rw [s.types_of_member? hmember]
  exact hfound s hs

/-- What a declaration is read as. -/
theorem yields_some {m : Reader Statement} (hm : Yields m c fun s _ => s.IsParsed) :
    Yields (some <$> m) c fun found _ => ∀ s ∈ found, s.IsParsed :=
  yields_map (hm.imp fun s _ hs => by rintro _ ⟨⟩; exact hs)

theorem yields_declaration? (hc : c.IsCutBehind) :
    Yields (declaration? (n + 1) h) c fun found _ => ∀ s ∈ found, s.IsParsed := by
  have hother : ∀ {d : Cursor} {m}, m ∈ otherReaders n h ++ [moduleItem n h, traitItem n h] →
      Yields (some <$> m) d fun found _ => ∀ s ∈ found, s.IsParsed := fun hm => yields_some (yields_other hm)
  have hnone : ∀ {d : Cursor}, Yields (pure none : Reader (Option Statement)) d fun found _ =>
      ∀ s ∈ found, s.IsParsed := yields_pure nofun
  have hblock : ∀ {d : Cursor}, Yields (pure (some .other) : Reader (Option Statement)) d fun found _ =>
      ∀ s ∈ found, s.IsParsed := yields_pure (by rintro _ ⟨⟩; exact isParsed_of_types rfl)
  unfold declaration?
  refine yields_past fun pair d hd => yields_past fun here e he => yields_past fun isFunction f hf => ?_
  have hf := (hd.trans he).trans hf
  refine yields_if (fun _ => yields_some (yields_function (hc.of_precedes hf))) fun _ => ?_
  refine yields_past fun isMacro g hg => ?_
  have hg := hc.of_precedes (hf.trans hg)
  dsimp only
  refine yields_if (fun _ => yields_if (fun _ => yields_failure) fun _ =>
    hother (by simp [otherReaders])) fun _ => ?_
  split
  · exact hother (by simp [otherReaders])
  · exact yields_if (fun _ => hnone) fun _ => yields_some (yields_constant hg)
  · exact yields_if (fun _ => yields_some (yields_static hg)) fun _ => hnone
  · exact yields_some (yields_typeAlias hg)
  · exact yields_some (yields_struct hg)
  · exact yields_some (yields_enum hg)
  · exact yields_if (fun _ => hother (by simp [otherReaders])) fun _ => hnone
  · exact hother (by simp)
  · exact hother (by simp)
  · exact yields_if (fun _ => hother (by simp)) fun _ => hnone
  · refine yields_if (fun _ => hother (by simp [otherReaders])) fun _ => ?_
    refine yields_past fun _ _ _ => yields_past fun _ _ _ => yields_past fun _ _ _ => ?_
    exact yields_if (fun _ => yields_past fun _ _ _ => yields_past fun _ _ _ => hblock) fun _ => hblock
  · exact hnone

theorem yields_statement {expressions : Bool} (ih : StatementsYield n) (hc : c.IsCutBehind) :
    Yields (statement (n + 1) expressions) c fun s _ => s.IsParsed := by
  have hother : ∀ {d : Cursor} {m : Reader Statement},
      m ∈ otherReaders n ⟨0, false⟩ ++ [moduleItem n ⟨0, false⟩, traitItem n ⟨0, false⟩] →
      Yields m d fun s _ => s.IsParsed := yields_other
  unfold statement
  refine yields_past fun line d hd => yields_past fun pair e he => ?_
  dsimp only
  refine yields_if (fun _ => ?_) fun _ => yields_past fun kind f hf => yields_if (fun _ => ?_) fun _ => ?_
  · exact yields_if (fun _ => yields_past fun _ _ _ => yields_pure (isParsed_of_types rfl))
      fun _ => yields_past fun _ _ _ => yields_pure (isParsed_of_types rfl)
  · exact yields_past fun _ _ _ => yields_pure (isParsed_of_types rfl)
  · refine yields_past fun isPublic g hg => ?_
    have hg := hc.of_precedes (((hd.trans he).trans hf).trans hg)
    refine yields_if (fun _ => yields_then (ih.declaration? hg) fun found _ _ hfound => ?_)
      fun _ => yields_then (ih.declaration? hg) fun found k hk hfound => ?_
    · cases found with
      | none => exact yields_failure
      | some s => exact yields_pure (hfound s rfl)
    · cases found with
      | some s => exact yields_pure (hfound s rfl)
      | none =>
        refine yields_if (fun _ => hother (by simp [otherReaders])) fun _ => ?_
        refine yields_if (fun _ => ih.implBlock (hg.of_precedes hk)) fun _ => ?_
        exact yields_if (fun _ => yields_orElse (hother (by simp [otherReaders]))
          (hother (by simp [otherReaders]))) fun _ => hother (by simp [otherReaders])

/-- **Every statement that is read writes types that are read.** -/
theorem statementsYield (n : Nat) : StatementsYield n := by
  induction n with
  | zero => constructor <;> intros <;> exact yields_failure
  | succ n ih =>
    exact {
      statement := yields_statement ih
      declaration? := yields_declaration?
      declarations := yields_declarations ih
      implBlock := yields_implBlock ih }

end Reader

/-! ## Sources -/

section Sources

variable {c : Cursor}

/-- The tokens behind the next statement are those of a text as well. -/
theorem isCutBehind_statement (fuel : Nat) {t : Token} {r : List Token} (hc : c.IsCutBehind)
    (hrest : c.rest = t :: r) : (c.statement fuel t r).2.IsCutBehind :=
  hc.of_precedes ((Cursor.isNext_statement fuel hrest).precedes hrest)

end Sources

end Source

end ModelPool
