import ModelPool.Proofs.Source.Tiling
import ModelPool.Proofs.Source.UnitReading

/-!
# Proofs/Source/AliasReading — the text of a type is read back

    type T = &'a ::m::Vec<'a, u8>;      &'a m::Vec<u8>      read back
    type T = ::union;                   union               malformed
    type T = dyn ::u8;                  dyn u8              malformed

A type that has been read is printed without the colons before its paths and without the lifetimes among
their arguments.  What is left is a type again wherever the words of a path may stand as they are: `default`
and `union` name nothing alone, and the name of a primitive type bounds nothing.

* `isReadable_of_isParsed` — which types are read back.
* `alias_read_back` — the print of the type of an alias in a well-formed source.
* `not_forall_alias_read_back` — what does not come back.
-/

namespace ModelPool

open Source

/-! ## Parts -/

/-- A word that is no keyword where a type may begin. -/
def Source.isFreeWord (s : String) : Bool := isWord s.toList && !(typeWords ++ pathKeywords).contains s

namespace TypeExpr

mutual

/-- **The parts of a type**, itself among them. -/
def parts : TypeExpr → List TypeExpr
  | .path segments args => .path segments args :: partsAll args
  | .reference lifetime mutable inner => .reference lifetime mutable inner :: parts inner
  | .slice element => .slice element :: parts element
  | .array element length => .array element length :: parts element
  | .tuple elements => .tuple elements :: partsAll elements
  | .traitObject keyword bound => .traitObject keyword bound :: parts bound
  | .verbatim text => [.verbatim text]

/-- The parts of several types. -/
def partsAll : List TypeExpr → List TypeExpr
  | [] => []
  | t :: r => parts t ++ partsAll r

end

theorem mem_parts_self (t : TypeExpr) : t ∈ t.parts := by
  cases t <;> exact List.mem_cons_self

theorem mem_partsAll {u : TypeExpr} {ts : List TypeExpr} : u ∈ partsAll ts ↔ ∃ t ∈ ts, u ∈ t.parts := by
  induction ts with
  | nil => simp [partsAll]
  | cons t r ih => simp [partsAll, ih]

/-- **The words of the type are identifiers**: nothing is kept as text, the segments of a path are
identifiers, and the name of a primitive type is a path alone. -/
def isNamed : TypeExpr → Bool
  | .path segments args => segments.all isFreeWord &&
      (segments.length == 1 && args.isEmpty || segments.all fun s => !primitiveTypes.contains s)
  | .verbatim _ => false
  | _ => true

/-- **The type stands alone**: it is no reserved word by itself, and is not bound by the name of a primitive
type. -/
def standsAlone : TypeExpr → Bool
  | .path [s] [] => !reservedWords.contains s
  | .traitObject _ (.path [s] []) => !primitiveTypes.contains s
  | _ => true

end TypeExpr

/-! ## Readable types -/

namespace Source

open TypeExpr Lexeme Reader

theorem isPathTail_of_isFreeWord {s : String} (h : isFreeWord s = true) : isPathTail s = true := by
  obtain ⟨hword, hkeyword⟩ := Bool.and_eq_true_iff.1 h
  refine Bool.and_eq_true_iff.2 ⟨hword, bne_iff_ne.2 ?_⟩
  rintro rfl
  exact absurd hkeyword (by decide)

theorem isWordPath_of_isFreeWord {segments : List String} (hne : segments ≠ [])
    (h : ∀ s ∈ segments, isFreeWord s = true) : isWordPath segments = true := by
  obtain ⟨first, r, rfl⟩ := List.exists_cons_of_ne_nil hne
  obtain ⟨hfirst, hr⟩ := List.forall_mem_cons.1 h
  obtain ⟨hword, hkeyword⟩ := Bool.and_eq_true_iff.1 hfirst
  refine Bool.and_eq_true_iff.2 ⟨Bool.and_eq_true_iff.2 ⟨hword, ?_⟩, List.all_eq_true.2 fun s hs => ?_⟩
  · have hnot : first ∉ typeWords ++ pathKeywords := by simpa using hkeyword
    simpa using fun hmem => hnot (List.mem_append_left _ hmem)
  · exact (Bool.and_eq_true_iff.1 (hr s hs)).1

/-- What an identifier is where a path begins with it. -/
theorem headForm_of_isFreeWord {s : String} (h : isFreeWord s = true) :
    headForm s = .primitive ∧ s ∈ primitiveTypes ∨ headForm s = .reserved ∧ s ∈ reservedWords ∨
      headForm s = .lone := by
  have hnot : s ∉ typeWords ++ pathKeywords := by simpa using (Bool.and_eq_true_iff.1 h).2
  have hkeyword : ¬ pathKeywords.contains s = true := by
    simpa using fun hmem => hnot (List.mem_append_right _ hmem)
  unfold headForm
  rw [if_neg hkeyword]
  split
  · next hprimitive => exact .inl ⟨rfl, by simpa using hprimitive⟩
  · split
    · next hreserved => exact .inr (.inl ⟨rfl, by simpa using hreserved⟩)
    · exact .inr (.inr rfl)

/-- **What a path is** whose words are identifiers. -/
theorem pathForm_of_isNamed {segments : List String} {args : List TypeExpr} (hne : segments ≠ [])
    (hnamed : isNamed (.path segments args) = true) (halone : standsAlone (.path segments args) = true) :
    (pathForm segments).isPlain = true ∨
      (pathForm segments = .primitive ∧ args = [] ∧ ∃ s ∈ primitiveTypes, segments = [s]) ∨
        pathForm segments = .reserved ∧ args ≠ [] := by
  obtain ⟨hall, hprimitive⟩ := Bool.and_eq_true_iff.1 hnamed
  rw [List.all_eq_true] at hall
  match segments, hne with
  | first :: second :: r, _ =>
    rw [pathForm_of_tail fun s hs => isPathTail_of_isFreeWord (hall s (List.mem_cons_of_mem _ hs))]
    exact .inl rfl
  | [s], _ =>
    change (headForm s).isPlain = true ∨ (headForm s = .primitive ∧ _) ∨ headForm s = .reserved ∧ _
    rcases headForm_of_isFreeWord (hall s List.mem_cons_self) with ⟨hform, hs⟩ | ⟨hform, hs⟩ | hform
    · have hargs : args = [] := by simpa [hs] using hprimitive
      exact .inr (.inl ⟨hform, hargs, s, hs, rfl⟩)
    · refine .inr (.inr ⟨hform, ?_⟩)
      rintro rfl
      simp [standsAlone, hs] at halone
    · exact .inl (hform ▸ rfl)

theorem isComplete_and_takesArguments_of_isPlain {form : PathForm} (h : form.isPlain = true) (empty : Bool) :
    (if empty then form.isComplete else form.takesArguments) = true := by
  cases form <;> cases empty <;> first | rfl | exact absurd h (by decide)

/-- A type that may bound a trait object is read back as one. -/
theorem isBoundable_of_mayBound {keyword : String} {t : TypeExpr} (hparsed : t.IsParsed)
    (hbound : t.mayBound = true) (hnamed : t.isNamed = true) (halone : t.standsAlone = true)
    (hobject : standsAlone (.traitObject keyword t) = true) : t.isBoundable = true := by
  cases t with
  | path segments args =>
    rcases pathForm_of_isNamed hparsed.1 hnamed halone with hplain | ⟨-, rfl, s, hs, rfl⟩ | ⟨-, hargs⟩
    · exact Bool.or_eq_true_iff.2 (.inr hplain)
    · simp [standsAlone, hs] at hobject
    · exact Bool.or_eq_true_iff.2 (.inl (by simpa using hargs))
  | tuple elements => cases elements with
    | nil => exact absurd hbound (by simp [mayBound])
    | cons => rfl
  | verbatim => simp [isNamed] at hnamed
  | _ => simp [mayBound] at hbound

/-- **Which types are read back**: those that have been read, if their words are identifiers and stand
alone. -/
theorem isReadable_of_isParsed {t : TypeExpr} (hparsed : t.IsParsed)
    (h : ∀ u ∈ t.parts, u.isNamed = true ∧ u.standsAlone = true) : t.IsReadable := by
  induction t using Ty.partsInduction with
  | path segments args ih =>
    obtain ⟨hnamed, halone⟩ := h _ (mem_parts_self _)
    obtain ⟨hne, hargs⟩ := hparsed
    have hall : ∀ s ∈ segments, isFreeWord s = true :=
      List.all_eq_true.1 (Bool.and_eq_true_iff.1 hnamed).1
    refine ⟨isWordPath_of_isFreeWord hne hall, ?_, allReadable_iff.2 fun u hu => ?_⟩
    · rcases pathForm_of_isNamed hne hnamed halone with hplain | ⟨hform, rfl, -⟩ | ⟨hform, hsome⟩
      · exact isComplete_and_takesArguments_of_isPlain hplain args.isEmpty
      · rw [hform]
        rfl
      · rw [hform, if_neg (by simpa using hsome)]
        rfl
    · exact ih u hu (allParsed_iff.1 hargs u hu) fun v hv =>
        h v (List.mem_cons_of_mem _ (mem_partsAll.2 ⟨u, hu, hv⟩))
  | reference lifetime mutable inner ih =>
    exact ⟨hparsed.1, ih hparsed.2 fun u hu => h u (List.mem_cons_of_mem _ hu)⟩
  | slice element ih => exact ih hparsed fun u hu => h u (List.mem_cons_of_mem _ hu)
  | array element length ih =>
    exact ⟨ih hparsed.1 fun u hu => h u (List.mem_cons_of_mem _ hu), hparsed.2⟩
  | tuple elements ih =>
    exact allReadable_iff.2 fun u hu => ih u hu (allParsed_iff.1 hparsed u hu) fun v hv =>
      h v (List.mem_cons_of_mem _ (mem_partsAll.2 ⟨u, hu, hv⟩))
  | traitObject keyword bound ih =>
    obtain ⟨hkeyword, hmay, hbound⟩ := hparsed
    have hparts : ∀ u ∈ parts bound, u.isNamed = true ∧ u.standsAlone = true := fun u hu =>
      h u (List.mem_cons_of_mem _ hu)
    obtain ⟨hnamed, halone⟩ := hparts _ (mem_parts_self _)
    exact ⟨hkeyword, isBoundable_of_mayBound hbound hmay hnamed halone (h _ (mem_parts_self _)).2,
      ih hbound hparts⟩
  | verbatim text => simpa [isNamed] using (h _ (mem_parts_self _)).1

/-! ## Aliases -/

section Alias

variable {N n : Nat} {ls : List Lexeme} {t : TypeExpr} {name : String}

/-- The lexemes of an alias behind its keyword. -/
def aliasTail (name : String) (t : TypeExpr) : List Lexeme :=
  ofName [' '] name :: sign [' '] '=' :: (typeLexemes [' '] t ++ [sign [] ';'])

/-- The alias of a type is read. -/
theorem reads_typeAlias (h : Heading) (ht : t.IsReadable) (hn : 8 * lexemeCount t < n) :
    Reads N (typeAlias n h) (ofName [] "type" :: (aliasTail name t ++ ls))
      (h.item name [] (.typeAlias t)) ls := by
  obtain ⟨n, rfl⟩ := Nat.exists_eq_add_one_of_ne_zero (Nat.ne_zero_of_lt hn)
  have htype : Reads N (type (n + 1)) (typeLexemes [' '] t ++ sign [] ';' :: ls) t _ :=
    (readsBack ht).type ht (by omega) (stops_sign (by decide) _)
  have hshape : aliasTail name t ++ ls = ofName [' '] name :: sign [' '] '=' ::
      (typeLexemes [' '] t ++ sign [] ';' :: ls) := by
    simp [aliasTail]
  rw [hshape]
  unfold typeAlias
  refine reads_bind (reads_expect rfl rfl) (reads_bind (reads_word rfl rfl) ?_)
  refine reads_bind (reads_typeParameters?_nil rfl (by simp)) (reads_bind (reads_text rfl) ?_)
  refine reads_if_not (by simp) (reads_bind (reads_whereClause_nil rfl (by simp)) ?_)
  refine reads_bind (reads_optional rfl rfl) (reads_if rfl (reads_bind htype ?_))
  refine reads_bind (reads_whereClause_nil rfl (by simp)) (reads_bind (reads_close rfl rfl) ?_)
  exact reads_pure

/-- **An alias** is found as a statement. -/
theorem finds_statement_typeAlias (ht : t.IsReadable) (hn : 8 * lexemeCount t + 4 < n) :
    Finds N (statement n true) (ofName [] "type" :: (aliasTail name t ++ ls))
      (fun s => ∃ line, s = .item ⟨name, .typeAlias t, [], [], [], false, line⟩) ls := by
  obtain ⟨n, rfl⟩ : ∃ k, n = k + 3 := ⟨n - 3, by omega⟩
  have hfunction : Reads N (atFunction (n + 1)) (ofName [] "type" :: (aliasTail name t ++ ls)) false _ :=
    reads_atFunction_keyword (by simp [functionModifiers]) (by simp) (by simp) _
  have hrules : Reads N atMacroRules (ofName [] "type" :: (aliasTail name t ++ ls)) false _ :=
    reads_atMacroRules rfl (by simp)
  have hdeclaration : ∀ h : Heading, Finds N (declaration? (n + 2) h)
      (ofName [] "type" :: (aliasTail name t ++ ls))
      (fun s => s = some (h.item name [] (.typeAlias t))) ls := by
    intro h
    unfold declaration?
    refine finds_of_reads (reads_textPair rfl) (finds_get fun _ _ _ => ?_)
    refine finds_of_reads hfunction (finds_if_not (by decide) ?_)
    refine finds_of_reads hrules (finds_if_not (by decide) (finds_map ?_))
    exact (reads_typeAlias h ht (by omega)).finds rfl
  unfold statement
  refine finds_line fun line => finds_of_reads (reads_textPair rfl) (finds_if_not (by simp) ?_)
  refine finds_of_reads (reads_kind? rfl) (finds_if_not (by simp [ofName]) ?_)
  refine finds_of_reads (reads_visibility_keyword (by simp) (by simp) _) (finds_if_not (by decide) ?_)
  refine finds_bind (hdeclaration _) fun s hs => ?_
  subst hs
  exact finds_pure ⟨line, rfl⟩

/-- The source of an alias for the text of a type. -/
def aliasText (text : String) : String := "type T = " ++ text ++ ";"

/-- **A source is well formed and declares the alias**, and nothing else. -/
def DeclaresAlias (u : SourceUnit) (t : TypeExpr) : Prop :=
  ∃ line, u = ⟨none, [], [], [⟨"T", .typeAlias t, [], [], [], false, line⟩], [], []⟩

theorem print_alias (ht : t.IsReadable) :
    print (ofName [] "type" :: aliasTail "T" t) = (aliasText t.text).toList := by
  simp [aliasTail, aliasText, ofName, sign, print_typeLexemes ht]

theorem legible_alias (ht : t.IsReadable) : Legible (ofName [] "type" :: aliasTail "T" t) [] := by
  have hblank : ∀ cs, EndsWord (' ' :: cs) := endsWord_cons (by decide)
  refine ⟨before_word rfl (by decide) (hblank _), before_word rfl (by decide) (hblank _),
    before_openSign rfl (.inr rfl) ?_, legible_append.2 ⟨?_, before_sign rfl (by decide) _, trivial⟩⟩
  · rw [print_append, print_typeLexemes ht]
    simp
  · exact legible_typeLexemes ht rfl (endsWord_cons (by decide) _)

/-- **A readable type is read back** from an alias. -/
theorem declaresAlias_of_isReadable (ht : t.IsReadable) :
    DeclaresAlias (.ofText (aliasText t.text)) t := by
  have hcount : lexemeCount t ≤ (aliasTail "T" t).length := by
    simp only [aliasTail, List.length_cons, List.length_append, length_typeLexemes]
    omega
  have htells : Tells (16 * ((aliasTail "T" t).length + 2)) ((aliasTail "T" t).length + 1)
      (ofName [] "type" :: (aliasTail "T" t ++ []))
      fun ss => ∃ s r, ss = s :: r ∧
        (∃ line, s = .item ⟨"T", .typeAlias t, [], [], [], false, line⟩) ∧ r = [] :=
    tells_statement rfl (finds_statement_typeAlias ht (by omega)) (tells_nil rfl)
  rw [List.append_nil] at htells
  obtain ⟨ss, hunit, _, _, rfl, ⟨line, rfl⟩, rfl⟩ :=
    exists_ofCharacters (legible_alias ht) rfl rfl (by decide) htells
  rw [List.append_nil, print_alias ht] at hunit
  exact ⟨line, hunit⟩

end Alias

/-- **Readable types that print alike are one type.** -/
theorem eq_of_text_eq {t u : TypeExpr} (ht : t.IsReadable) (hu : u.IsReadable) (h : t.text = u.text) :
    t = u := by
  obtain ⟨line, hfirst⟩ := declaresAlias_of_isReadable ht
  obtain ⟨line', hsecond⟩ := declaresAlias_of_isReadable hu
  rw [h, hsecond] at hfirst
  have hitems := List.singleton_injective (congrArg SourceUnit.items hfirst)
  exact (ItemKind.typeAlias.inj (congrArg Item.kind hitems)).symm

/-- **The text of a type is read back.**  The type of an alias in a well-formed source, whose words are
identifiers and stand alone: an alias for its text is well formed, and its type is the same again. -/
theorem alias_read_back {cs : List Char} (hwell : (SourceUnit.ofCharacters cs).syntaxErrors = []) {i : Item}
    {e : TypeExpr} (hi : i ∈ (SourceUnit.ofCharacters cs).items) (hkind : i.kind = .typeAlias e)
    (h : ∀ u ∈ e.parts, u.isNamed = true ∧ u.standsAlone = true) :
    DeclaresAlias (.ofText (aliasText e.text)) e := by
  have htypes : e ∈ i.kind.types := by
    rw [hkind]
    exact List.mem_cons_self
  exact declaresAlias_of_isReadable
    (isReadable_of_isParsed (SourceUnit.isParsed_of_mem_items hwell hi htypes) h)

/-! ## A path that begins with colons -/

/-- A type whose print leaves something out. -/
def borrowedArray : TypeExpr :=
  .reference (some "a") true (.array (.path ["m", "Vec"] [.path ["u8"] []]) "2")

/-- The item of an alias in the first line. -/
def aliasItem (t : TypeExpr) : Item := ⟨"T", .typeAlias t, [], [], [], false, 1⟩

/-- Two aliases whose paths begin with colons; the second one names nothing without them. -/
theorem items_colons :
    ((SourceUnit.ofText (aliasText "&'a mut [::m::Vec<'a, u8>; 2]")).syntaxErrors = [] ∧
        (SourceUnit.ofText (aliasText "&'a mut [::m::Vec<'a, u8>; 2]")).items = [aliasItem borrowedArray]) ∧
      ((SourceUnit.ofText (aliasText "::union")).isWellFormed = true ∧
        (SourceUnit.ofText (aliasText "::union")).items = [aliasItem (.path ["union"] [])]) ∧
      (SourceUnit.ofText (aliasText "union")).isWellFormed = false := by
  decide +kernel

/-- The first one is read back. -/
theorem alias_read_back_borrowed :
    (SourceUnit.ofText (aliasText "&'a mut [::m::Vec<'a, u8>; 2]")).syntaxErrors = [] ∧
      aliasItem borrowedArray ∈ (SourceUnit.ofText (aliasText "&'a mut [::m::Vec<'a, u8>; 2]")).items ∧
      (∀ u ∈ borrowedArray.parts, u.isNamed = true ∧ u.standsAlone = true) ∧
      DeclaresAlias (.ofText (aliasText borrowedArray.text)) borrowedArray := by
  have hmem : aliasItem borrowedArray ∈
      (SourceUnit.ofText (aliasText "&'a mut [::m::Vec<'a, u8>; 2]")).items := by
    rw [items_colons.1.2]
    exact List.mem_singleton_self _
  have hparts : ∀ u ∈ borrowedArray.parts, u.isNamed = true ∧ u.standsAlone = true := by decide
  exact ⟨items_colons.1.1, hmem, hparts, alias_read_back items_colons.1.1 hmem rfl hparts⟩

/-- **Not every type of a well-formed alias is read back.** -/
theorem not_forall_alias_read_back : ¬ ∀ (text : String) (i : Item) (e : TypeExpr),
    (SourceUnit.ofText (aliasText text)).isWellFormed = true →
      (SourceUnit.ofText (aliasText text)).items = [i] → i.kind = .typeAlias e →
        (∀ u ∈ e.parts, u.isNamed = true) → (SourceUnit.ofText (aliasText e.text)).isWellFormed = true := by
  intro hall
  obtain ⟨-, ⟨hwell, hitems⟩, hmalformed⟩ := items_colons
  have hback := hall "::union" _ _ hwell hitems rfl (by decide)
  exact absurd (hmalformed.symm.trans hback) (by decide)

end Source

end ModelPool
