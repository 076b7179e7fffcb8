import ModelPool.Proofs.Source.Moves
import ModelPool.Proofs.Text.Trimming

/-!
# Proofs/Source/Names — structs and their fields are named by words

Tokens that are words are spelled like words, and a struct gets its name and those of its fields from such
tokens.  So these names have no slash and no blank, whatever the source they were read from; and a line of
documentation has no blank at its end.

* `Reader.Gives` — what holds of every result of a reader.
* `isWord_of_mem_items`, `isNamed_of_mem_items` — the laws for the items of a source.
* `isTrimmedEnd_of_mem_items` — the law for their documentation.
-/

namespace ModelPool

open Text

/-! ## Documentation -/

/-- **A line without blanks at its end.** -/
def IsTrimmedEnd (line : String) : Prop := trimEnd line.toList = line.toList

theorem isTrimmedEnd_of_documentation? {comment line : String} (h : documentation? comment = some line) :
    IsTrimmedEnd line := by
  unfold documentation? at h
  split at h
  · next r htrim =>
    have hr : trimEnd r = r := by
      have hall := trimEnd_trimEnd comment.toList
      rw [htrim] at hall
      exact @trimEnd_of_append ['/', '/', '/'] r hall
    split at h
    · exact absurd h (by simp)
    · next rest =>
      obtain rfl := Option.some.inj h
      rw [IsTrimmedEnd, String.toList_ofList]
      exact @trimEnd_of_append [' '] rest hr
    · obtain rfl := Option.some.inj h
      rw [IsTrimmedEnd, String.toList_ofList, hr]
  · split at h
    · exact absurd h (by simp)
    · obtain rfl := Option.some.inj h
      rw [IsTrimmedEnd, String.toList_ofList]
      exact trimEnd_trimEnd _
  · exact absurd h (by simp)

namespace Source

/-! ## Results of readers -/

namespace Reader

variable {α β : Type}

/-- **Every result of the reader has the property**, wherever it starts. -/
def Gives (m : Reader α) (P : α → Prop) : Prop := ∀ c found, m.run c = some found → P found.1

variable {P : α → Prop} {Q : β → Prop}

theorem gives_pure {a : α} (h : P a) : Gives (pure a) P := by
  intro c found hrun
  obtain rfl : (a, c) = found := by simpa using hrun
  exact h

theorem gives_failure : Gives (failure : Reader α) P := by
  intro c found hrun
  exact absurd (show none = some found from hrun) (by simp)

/-- Two readers in sequence give what the second one gives. -/
theorem gives_bind {m : Reader α} {f : α → Reader β} (hm : Gives m P)
    (hf : ∀ a, P a → Gives (f a) Q) : Gives (m >>= f) Q := by
  intro c found hrun
  obtain ⟨a, c', ha, hb⟩ := run_bind_eq_some.1 hrun
  exact hf a (hm c _ ha) c' found hb

/-- Where the first one may give anything, only the second one counts. -/
theorem gives_of_forall {m : Reader α} {f : α → Reader β} (hf : ∀ a, Gives (f a) Q) :
    Gives (m >>= f) Q :=
  gives_bind (P := fun _ => True) (fun _ _ _ => trivial) fun a _ => hf a

theorem gives_map {m : Reader α} {f : α → β} (hm : Gives m fun a => Q (f a)) : Gives (f <$> m) Q := by
  intro c found hrun
  obtain ⟨a, ha, hfound⟩ := run_map_eq_some.1 hrun
  exact hfound ▸ hm c _ ha

theorem gives_orElse {m n : Reader α} (hm : Gives m P) (hn : Gives n P) : Gives (m <|> n) P :=
  fun c found hrun => (run_orElse_eq_some hrun).elim (hm c found) (hn c found)

/-- **A word is spelled like one.** -/
theorem gives_word : Gives word fun name => isWord name.toList = true := by
  unfold word take
  refine gives_of_forall fun t => ?_
  split
  · next t =>
    split
    · next hk => exact gives_of_forall fun _ => gives_pure (t.isWord hk)
    · exact gives_failure
  · exact gives_failure

end Reader

end Source

open Source

/-! ## Fields -/

/-- **A field with a word for its name**, whose documentation has no blanks at the ends of its lines. -/
structure Field.IsNamed (f : Field) : Prop where
  name : isWord f.name.toList = true
  docs : ∀ line ∈ f.docs, IsTrimmedEnd line

/-- All named fields among these have words for their names. -/
def Fields.AreNamed (fs : Fields) : Prop := ∀ gs, fs = .named gs → ∀ g ∈ gs, g.IsNamed

namespace Source

namespace Reader

variable {n : Nat}

theorem gives_docsAhead : Gives docsAhead fun docs => ∀ line ∈ docs, IsTrimmedEnd line := by
  unfold docsAhead
  refine gives_of_forall fun c => gives_of_forall fun _ => gives_pure fun line hline => ?_
  obtain ⟨t, -, ht⟩ := List.mem_filterMap.1 hline
  exact isTrimmedEnd_of_documentation? ht

theorem gives_docsAmongAttributes :
    Gives (docsAmongAttributes n) fun docs => ∀ line ∈ docs, IsTrimmedEnd line := by
  induction n with
  | zero => exact gives_failure
  | succ n ih =>
    unfold docsAmongAttributes
    refine gives_bind gives_docsAhead fun docs hdocs => gives_of_forall fun ahead => ?_
    split
    · refine gives_of_forall fun _ => gives_bind ih fun more hmore => gives_pure ?_
      exact List.forall_mem_append.2 ⟨hdocs, hmore⟩
    · exact gives_pure hdocs

theorem gives_namedField {docs : List String} (hdocs : ∀ line ∈ docs, IsTrimmedEnd line) :
    Gives (namedField n docs) Field.IsNamed := by
  unfold namedField
  refine gives_of_forall fun line => gives_of_forall fun _ => gives_bind gives_word fun name hname => ?_
  exact gives_of_forall fun _ => gives_of_forall fun type => gives_pure ⟨hname, hdocs⟩

theorem gives_fieldsBehind {found : List String} (hfound : ∀ line ∈ found, IsTrimmedEnd line) :
    Gives (fieldsBehind n found) fun gs => ∀ g ∈ gs, g.IsNamed := by
  induction n generalizing found with
  | zero => exact gives_failure
  | succ n ih =>
    unfold fieldsBehind
    refine gives_bind gives_docsAhead fun ahead hahead => gives_of_forall fun ends => ?_
    have hbefore := List.forall_mem_append.2 ⟨hfound, hahead⟩
    dsimp only
    split
    · exact gives_pure (by simp)
    · refine gives_bind gives_docsAmongAttributes fun more hmore => ?_
      have hfield := gives_namedField (n := n) (List.forall_mem_append.2 ⟨hbefore, hmore⟩)
      refine gives_bind hfield fun g hg => gives_bind gives_docsAhead fun later hlater => ?_
      refine gives_of_forall fun comma => ?_
      split
      · exact gives_bind (ih hlater) fun gs hgs => gives_pure (List.forall_mem_cons.2 ⟨hg, hgs⟩)
      · exact gives_pure (List.forall_mem_singleton.2 hg)

theorem gives_namedFields : Gives (namedFields n) Fields.AreNamed := by
  unfold namedFields
  refine gives_of_forall fun _ => gives_of_forall fun comma => ?_
  have hnamed : Gives (fieldsBehind n []) fun gs => ∀ g ∈ gs, g.IsNamed := gives_fieldsBehind (by simp)
  have hbody : ∀ {m : Reader (List Field)}, Gives m (fun gs => ∀ g ∈ gs, g.IsNamed) →
      Gives (do let fields ← m; close closeBrace; return .named fields) Fields.AreNamed := by
    intro m hm
    refine gives_bind hm fun gs hgs => gives_of_forall fun _ => gives_pure ?_
    rintro _ ⟨⟩
    exact hgs
  split
  · exact hbody (gives_pure (by simp))
  · exact hbody hnamed

end Reader

/-! ## Statements -/

/-- **A struct among statements has a word for its name**, and so have its fields. -/
def Statement.NamesStruct (s : Statement) : Prop :=
  ∀ i, s = .item i → ∀ fs, i.kind = .struct fs → isWord i.name.toList = true ∧ fs.AreNamed

namespace Reader

variable {n : Nat} {h : Heading}

theorem namesStruct_of_kind {name : String} {generics : List String} {kind : ItemKind}
    (hk : ∀ fs, kind ≠ .struct fs) : (h.item name generics kind).NamesStruct := by
  intro i hi fs hfs
  obtain rfl := Statement.item.inj hi
  exact absurd hfs (hk fs)

theorem namesStruct_of_word {name : String} (hname : isWord name.toList = true)
    (generics : List String) {fields : Fields} (hfields : fields.AreNamed) :
    (h.item name generics (.struct fields)).NamesStruct := by
  rintro i hi fs hfs
  obtain rfl := Statement.item.inj hi
  obtain rfl := ItemKind.struct.inj hfs
  exact ⟨hname, hfields⟩

/-- A struct is named by the word behind its keyword, and its fields by words. -/
theorem gives_struct : Gives (struct n h) Statement.NamesStruct := by
  unfold struct
  refine gives_of_forall fun _ => gives_bind gives_word fun name hname => ?_
  have hgives : ∀ generics {fields : Fields}, fields.AreNamed →
      Gives (pure (h.item name generics (.struct fields))) Statement.NamesStruct :=
    fun _ _ hfields => gives_pure (namesStruct_of_word hname _ hfields)
  have htuple : Gives (tupleFields n) Fields.AreNamed := by
    unfold tupleFields
    refine gives_of_forall fun _ => gives_of_forall fun _ => ?_
    split
    · exact gives_of_forall fun _ => gives_of_forall fun _ => gives_pure nofun
    · exact gives_of_forall fun _ => gives_of_forall fun _ => gives_pure nofun
  refine gives_of_forall fun generics => gives_of_forall fun ahead => ?_
  dsimp only
  split
  · refine gives_bind htuple fun fields hfields => gives_of_forall fun _ => gives_of_forall fun _ => ?_
    exact gives_bind (P := Fields.AreNamed) (gives_pure hfields) fun _ hfields => hgives _ hfields
  · split
    · exact gives_of_forall fun _ => gives_bind gives_namedFields fun _ hfields => hgives _ hfields
    · exact gives_of_forall fun _ => gives_bind (P := Fields.AreNamed) (gives_pure nofun) fun _ hfields => hgives _ hfields

theorem gives_moduleItem : Gives (moduleItem n h) Statement.NamesStruct := by
  cases n with
  | zero => exact gives_failure
  | succ n =>
    unfold moduleItem
    repeat' first
      | with_reducible refine gives_of_forall fun _ => ?_
      | with_reducible refine gives_pure ?_
      | split
    all_goals exact namesStruct_of_kind nofun

theorem gives_traitItem : Gives (traitItem n h) Statement.NamesStruct := by
  cases n with
  | zero => exact gives_failure
  | succ n =>
    unfold traitItem
    repeat' first
      | with_reducible refine gives_of_forall fun _ => ?_
      | with_reducible refine gives_pure ?_
      | split
    all_goals exact namesStruct_of_kind nofun

theorem gives_implBlock {line : Nat} : Gives (implBlock n line) Statement.NamesStruct := by
  cases n with
  | zero => exact gives_failure
  | succ n =>
    unfold implBlock
    repeat' first
      | with_reducible refine gives_of_forall fun _ => ?_
      | with_reducible refine gives_pure ?_
      | split
    all_goals exact nofun

theorem gives_some {m : Reader Statement} (hm : Gives m Statement.NamesStruct) :
    Gives (some <$> m) fun found => ∀ s ∈ found, s.NamesStruct := by
  refine gives_map fun c found hrun => ?_
  rintro s ⟨⟩
  exact hm c found hrun

/-- The readers of statements that have no statements inside, besides that of structs. -/
def plainReaders (n : Nat) (h : Heading) : List (Reader Statement) :=
  [function n h, constant n h, static n h, typeAlias n h, enum n h, union n h, macroRules h,
    useDeclaration n h, externCrate, letDeclaration n, macroCall n, expressionStatement n]

theorem gives_of_mem_plainReaders {m : Reader Statement} (hm : m ∈ plainReaders n h) :
    Gives m Statement.NamesStruct := by
  simp only [plainReaders, List.mem_cons, List.not_mem_nil, or_false] at hm
  rcases hm with rfl | rfl | rfl | rfl | rfl | rfl | rfl | rfl | rfl | rfl | rfl | rfl
  all_goals
    first
      | unfold function | unfold constant | unfold static | unfold typeAlias | unfold enum
      | unfold union | unfold macroRules | unfold useDeclaration | unfold externCrate
      | unfold letDeclaration | unfold macroCall | unfold expressionStatement
    repeat' first
      | with_reducible exact gives_failure
      | with_reducible refine gives_of_forall fun _ => ?_
      | with_reducible refine gives_pure ?_
      | split
    all_goals first
      | exact namesStruct_of_kind (by rintro _ ⟨⟩)
      | rintro _ ⟨⟩

/-- **A declaration that is a struct is named by a word.** -/
theorem gives_declaration? : Gives (declaration? n h) fun found =>
    ∀ s ∈ found, s.NamesStruct := by
  cases n with
  | zero => exact gives_failure
  | succ n =>
    have hplain : ∀ m ∈ plainReaders n h, Gives (some <$> m) fun found =>
        ∀ s ∈ found, s.NamesStruct :=
      fun m hm => gives_some (gives_of_mem_plainReaders hm)
    have hnone : Gives (pure none : Reader (Option Statement)) fun found =>
        ∀ s ∈ found, s.NamesStruct := gives_pure (by rintro _ ⟨⟩)
    unfold declaration?
    refine gives_of_forall fun x => gives_of_forall fun c => gives_of_forall fun isFunction => ?_
    split
    · exact hplain _ (by simp [plainReaders])
    · refine gives_of_forall fun isMacro => ?_
      split
      · split
        · exact gives_failure
        · exact hplain _ (by simp [plainReaders])
      · split
        · exact hplain _ (by simp [plainReaders])
        · split
          · exact hnone
          · exact hplain _ (by simp [plainReaders])
        · split
          · exact hplain _ (by simp [plainReaders])
          · exact hnone
        · exact hplain _ (by simp [plainReaders])
        · exact gives_some gives_struct
        · exact hplain _ (by simp [plainReaders])
        · split
          · exact hplain _ (by simp [plainReaders])
          · exact hnone
        · exact gives_some gives_moduleItem
        · exact gives_some gives_traitItem
        · split
          · exact gives_some gives_traitItem
          · exact hnone
        · split
          · exact hplain _ (by simp [plainReaders])
          · have hblock : Gives (pure (some .other) : Reader (Option Statement)) fun found =>
                ∀ s ∈ found, s.NamesStruct := gives_pure (by rintro s ⟨⟩ _ ⟨⟩)
            refine gives_of_forall fun _ => gives_of_forall fun _ => gives_of_forall fun _ => ?_
            split
            · exact gives_of_forall fun _ => gives_of_forall fun _ => hblock
            · exact hblock
        · exact hnone

/-- **And so is a statement.** -/
theorem gives_statement {expressions : Bool} :
    Gives (statement n expressions) Statement.NamesStruct := by
  cases n with
  | zero => exact gives_failure
  | succ n =>
    have hplain : ∀ m ∈ plainReaders n ⟨0, false⟩, Gives m Statement.NamesStruct :=
      fun m hm => gives_of_mem_plainReaders hm
    unfold statement
    refine gives_of_forall fun line => gives_of_forall fun x => ?_
    dsimp only
    split
    · split <;> exact gives_of_forall fun _ => gives_pure nofun
    · refine gives_of_forall fun kind => ?_
      split
      · exact gives_of_forall fun _ => gives_pure nofun
      · refine gives_of_forall fun isPublic => ?_
        split
        · refine gives_bind gives_declaration? fun found hfound => ?_
          split
          · exact gives_pure (hfound _ rfl)
          · exact gives_failure
        · refine gives_bind gives_declaration? fun found hfound => ?_
          split
          · exact gives_pure (hfound _ rfl)
          · split
            · exact hplain _ (by simp [plainReaders])
            · split
              · exact gives_implBlock
              · split
                · exact gives_orElse (hplain _ (by simp [plainReaders])) (hplain _ (by simp [plainReaders]))
                · exact hplain _ (by simp [plainReaders])

end Reader

/-! ## Sources -/

theorem namesStruct_statement {fuel : Nat} {c : Cursor} {t : Token} {r : List Token} (hrest : c.rest = t :: r) :
    (c.statement fuel t r).1.NamesStruct := by
  generalize hnext : c.statement fuel t r = found
  cases hnext ▸ Cursor.isNext_statement fuel hrest with
  | comment _ => exact nofun
  | statement _ hread => exact Reader.gives_statement c found hread
  | malformed hfound _ _ =>
    rintro i hi fs hfs
    rcases hfound with hother | ⟨j, hj, hkind⟩
    · exact absurd (hi.symm.trans hother) (by simp)
    · obtain rfl := Statement.item.inj (hi.symm.trans hj)
      exact absurd (hfs.symm.trans hkind) (by simp)

theorem namesStruct_of_mem_statements {fuel : Nat} {c : Cursor} :
    ∀ s ∈ (c.statements fuel).1, s.NamesStruct := by
  fun_induction Cursor.statements fuel c with
  | case1 c hrest => exact fun s hs => absurd hs List.not_mem_nil
  | case2 c t r hrest first later hfirst hless others errors hothers ih =>
    have hnamed : first.NamesStruct := by
      have h := @namesStruct_statement fuel c t r hrest
      rwa [hfirst] at h
    rw [hothers] at ih
    exact List.forall_mem_cons.2 ⟨hnamed, ih⟩
  | case3 c t r hrest first later hfirst hless =>
    have hnamed : first.NamesStruct := by
      have h := @namesStruct_statement fuel c t r hrest
      rwa [hfirst] at h
    exact List.forall_mem_singleton.2 hnamed

/-- An item has the name of the statement that it was read from. -/
theorem exists_item_of_mem_itemsFrom {stretch : Stretch} {ss : List Statement} {i : Item}
    (h : i ∈ itemsFrom stretch ss) :
    ∃ j, .item j ∈ ss ∧ i.name = j.name ∧ i.kind = j.kind := by
  fun_induction itemsFrom stretch ss with
  | case1 => exact absurd h List.not_mem_nil
  | case5 stretch j r ih =>
    rcases List.mem_cons.1 h with rfl | h
    · exact ⟨j, List.mem_cons_self, rfl, rfl⟩
    · obtain ⟨k, hk, heq⟩ := ih h
      exact ⟨k, List.mem_cons_of_mem _ hk, heq⟩
  | case2 _ _ _ ih | case3 _ _ _ ih | case4 _ _ _ ih | case6 _ _ _ _ ih | case7 _ _ _ ih
  | case8 _ _ ih =>
    obtain ⟨k, hk, heq⟩ := ih h
    exact ⟨k, List.mem_cons_of_mem _ hk, heq⟩

/-- The documentation of an item has no blanks at the ends of its lines. -/
theorem isTrimmedEnd_of_mem_itemsFrom {stretch : Stretch} {ss : List Statement} {i : Item}
    (hstretch : ∀ line ∈ stretch.docs, IsTrimmedEnd line) (h : i ∈ itemsFrom stretch ss) :
    ∀ line ∈ i.docs, IsTrimmedEnd line := by
  fun_induction itemsFrom stretch ss with
  | case1 => exact absurd h List.not_mem_nil
  | case2 stretch text r ih =>
    refine ih (List.forall_mem_append.2 ⟨hstretch, fun line hline => ?_⟩) h
    exact isTrimmedEnd_of_documentation? (Option.mem_toList.1 hline)
  | case5 stretch j r ih =>
    rcases List.mem_cons.1 h with rfl | h
    · exact hstretch
    · exact ih (by simp [Stretch.empty]) h
  | case3 _ _ _ ih | case4 _ _ _ ih => exact ih hstretch h
  | case6 _ _ _ _ ih | case7 _ _ _ ih | case8 _ _ ih => exact ih (by simp [Stretch.empty]) h

end Source

namespace SourceUnit

variable {cs : List Char} {i : Item}

theorem namesStruct_of_mem_items (h : i ∈ (ofCharacters cs).items) {fs : Fields}
    (hfs : i.kind = .struct fs) : isWord i.name.toList = true ∧ fs.AreNamed := by
  obtain ⟨j, hj, hname, hkind⟩ := @exists_item_of_mem_itemsFrom .empty _ i h
  rw [hname]
  exact namesStruct_of_mem_statements _ hj j rfl fs (hkind ▸ hfs)

/-- **A struct of a source is named by a word.** -/
theorem isWord_of_mem_items (h : i ∈ (ofCharacters cs).items) {fs : Fields}
    (hfs : i.kind = .struct fs) : isWord i.name.toList = true :=
  (namesStruct_of_mem_items h hfs).1

/-- **And so are its fields.** -/
theorem isNamed_of_mem_items (h : i ∈ (ofCharacters cs).items) {gs : List Field}
    (hgs : i.kind = .struct (.named gs)) : ∀ g ∈ gs, g.IsNamed :=
  (namesStruct_of_mem_items h hgs).2 gs rfl

/-- **The documentation of an item is trimmed at the ends of its lines.** -/
theorem isTrimmedEnd_of_mem_items (h : i ∈ (ofCharacters cs).items) :
    ∀ line ∈ i.docs, IsTrimmedEnd line :=
  @isTrimmedEnd_of_mem_itemsFrom .empty _ _ (by simp [Stretch.empty]) h

end SourceUnit

end ModelPool
