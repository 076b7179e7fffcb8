import ModelPool.Proofs.Source.TypeLexemes

/-!
# Proofs/Source/TypeYielding — what the reader for types can yield

A type that has been read from the tokens of a source is put together as the grammar puts types together:
its paths have segments, its lifetimes are named, its lengths are texts of their own, and behind `dyn` and
`impl` stands what may bound a trait object.

* `IsParsed` — such a type.
* `typesYield` — every type that is read is one.
-/

namespace ModelPool

open Text

/-! ## Types that are read -/

namespace TypeExpr

/-- The type may stand behind `dyn` or `impl`, or is kept as text. -/
def mayBound : TypeExpr → Bool
  | .path _ _ | .tuple (_ :: _) | .verbatim _ => true
  | _ => false

mutual

/-- **A type as it is read** from a source. -/
def IsParsed : TypeExpr → Prop
  | .path segments args => segments ≠ [] ∧ AllParsed args
  | .reference lifetime _ inner => lifetime.all Source.isLifetimeName = true ∧ IsParsed inner
  | .slice element => IsParsed element
  | .array element length => IsParsed element ∧ Source.IsLength length
  | .tuple elements => AllParsed elements
  | .traitObject keyword bound =>
    (keyword = "dyn" ∨ keyword = "impl") ∧ mayBound bound = true ∧ IsParsed bound
  | .verbatim _ => True

/-- All of several types are read. -/
def AllParsed : List TypeExpr → Prop
  | [] => True
  | t :: r => IsParsed t ∧ AllParsed r

end

theorem allParsed_iff {ts : List TypeExpr} : AllParsed ts ↔ ∀ t ∈ ts, IsParsed t := by
  induction ts with
  | nil => simp [AllParsed]
  | cons t r ih => simp [AllParsed, ih]

end TypeExpr

namespace Source

open TypeExpr

/-! ## Places in a source -/

namespace Cursor

/-- **The tokens ahead are those of a text.** -/
def IsCut (c : Cursor) : Prop := ∃ p cs, c.rest = tokensFrom p cs

variable {c d : Cursor} {t : Token}

theorem IsCut.of_precedes (hc : c.IsCut) (h : c.Precedes d) : d.IsCut := by
  obtain ⟨p, cs, hrest⟩ := hc
  obtain ⟨k, hdrop, -⟩ := h
  rw [hrest] at hdrop
  obtain ⟨q, cs', hq⟩ := exists_tokensFrom_drop p cs k
  exact ⟨q, cs', hdrop.trans hq⟩

theorem mem_of_ahead? (h : c.ahead? = some t) : t ∈ c.rest := by
  obtain ⟨comments, hpassed, -⟩ := exists_passed_forward h
  rw [hpassed.rest]
  simp

/-- The name of a lifetime ahead. -/
theorem IsCut.isLifetimeName (hc : c.IsCut) (h : c.ahead? = some t) (hkind : t.kind = .lifetime) :
    isLifetimeName (String.ofList (t.text.toList.dropWhile (· == '\''))) = true := by
  obtain ⟨p, cs, hrest⟩ := hc
  obtain ⟨d, q, htext, hd, hq⟩ := isLifetime_of_mem (hrest ▸ mem_of_ahead? h) hkind
  have hquote : d ≠ '\'' := by
    rintro rfl
    exact absurd hd (by decide)
  rw [Source.isLifetimeName, htext, List.dropWhile_cons_of_pos (by decide),
    List.dropWhile_cons_of_neg (by simpa using hquote), String.toList_ofList]
  exact Bool.and_eq_true_iff.2 ⟨hd, hq⟩

end Cursor

/-! ## The segments of a path -/

theorem exists_part {c : Char} (hc : c ≠ ':') {cs : List Char} (h : c ∈ cs) :
    ∃ part ∈ splitColons cs, c ∈ part := by
  fun_induction splitColons cs with
  | case1 => exact absurd h List.not_mem_nil
  | case2 r ih =>
    obtain ⟨part, hpart, hmem⟩ := ih (by simpa [hc] using h)
    exact ⟨part, List.mem_cons_of_mem _ hpart, hmem⟩
  | case3 d r hne hnil => exact absurd hnil (splitColons_ne_nil r)
  | case4 d r hne part parts hsplit ih =>
    rcases List.mem_cons.1 h with rfl | h
    · exact ⟨_, List.mem_cons_self, List.mem_cons_self⟩
    · obtain ⟨found, hfound, hmem⟩ := ih h
      rw [hsplit] at hfound
      rcases List.mem_cons.1 hfound with rfl | hfound
      · exact ⟨_, List.mem_cons_self, List.mem_cons_of_mem _ hmem⟩
      · exact ⟨found, List.mem_cons_of_mem _ hfound, hmem⟩

/-- A text that holds more than colons and blanks has segments. -/
theorem splitPath_ne_nil {s : String} {c : Char} (hmem : c ∈ s.toList) (hc : c ≠ ':')
    (hblank : isBlank c = false) : splitPath s ≠ [] := by
  obtain ⟨part, hpart, hmem⟩ := exists_part hc hmem
  have hsqueezed : c ∈ squeeze part := List.mem_filter.2 ⟨hmem, by simp [hblank]⟩
  have hfilter : squeeze part ∈ ((splitColons s.toList).map squeeze).filter (!·.isEmpty) :=
    List.mem_filter.2 ⟨List.mem_map_of_mem hpart, by simp [List.ne_nil_of_mem hsqueezed]⟩
  exact List.ne_nil_of_mem (List.mem_map_of_mem hfilter)

theorem mem_spanned {ts : List Token} {t : Token} {c : Char} (ht : t ∈ ts) (hc : c ∈ t.text.toList) :
    c ∈ Token.spanned ts := by
  have hprint : ∀ {ts : List Token}, t ∈ ts → c ∈ Token.print ts := by
    intro ts ht
    obtain ⟨r, s, rfl⟩ := List.append_of_mem ht
    simp [Token.print_append, Token.print_cons, hc]
  cases ts with
  | nil => exact absurd ht List.not_mem_nil
  | cons u r =>
    rcases List.mem_cons.1 ht with rfl | ht
    · exact List.mem_append_left _ hc
    · exact List.mem_append_right _ (hprint ht)

/-- The text up to a word that has just been passed over has segments. -/
theorem splitPath_upTo_ne_nil {start c : Cursor} {t : Token} (hstart : start.Precedes c)
    (ht : c.ahead? = some t) (hkind : t.kind = .word) :
    splitPath (String.ofList (Token.spanned (start.upTo c.forward))) ≠ [] := by
  obtain ⟨k, hrest, htaken, -⟩ := hstart
  obtain ⟨comments, hpassed, -, hcomment⟩ := Cursor.exists_passed_forward ht
  have hword := t.isWord hkind
  obtain ⟨d, hd⟩ := List.exists_mem_of_ne_nil _ (ne_nil_of_isWord hword)
  have hcolon : d ≠ ':' := by
    rintro rfl
    exact not_mem_of_isWord hword (by decide) (by decide) hd
  refine splitPath_ne_nil (c := d) ?_ hcolon (isBlank_of_isWord hword d hd)
  rw [String.toList_ofList]
  have hmem : t ∈ start.upTo c.forward := by
    have hlength : c.forward.taken - start.taken = k + (comments ++ [t]).length := by
      rw [hpassed.taken, htaken]
      omega
    have htake : t ∈ start.rest.take (c.forward.taken - start.taken) := by
      rw [hlength, List.take_add, ← hrest, hpassed.rest, List.take_left]
      simp
    rw [← List.takeWhile_append_dropWhile (p := Token.isComment)
      (l := start.rest.take (c.forward.taken - start.taken))] at htake
    refine (List.mem_append.1 htake).resolve_left fun hmem => ?_
    exact absurd (List.mem_takeWhile_imp hmem) (by simp [hcomment])
  exact mem_spanned hmem hd

/-! ## The readers for types -/

namespace Reader

variable {n : Nat} {c start : Cursor}

section Lists

variable {α : Type} {entry : Reader α} [Moves entry] {P : α → Prop}

theorem yields_entries (hentry : ∀ {c : Cursor}, c.IsCut → Yields entry c fun a _ => P a) (sign : String)
    (hc : c.IsCut) : Yields (entries sign entry n) c fun found _ => ∀ a ∈ found, P a := by
  induction n generalizing c with
  | zero => exact yields_failure
  | succ n ih =>
    unfold entries
    refine yields_past fun closed d hd => ?_
    have hd := hc.of_precedes hd
    refine yields_if (fun _ => yields_pure (by simp)) fun _ => ?_
    refine yields_then (hentry hd) fun a d' hd' ha => yields_past fun comma e he => ?_
    have he := (hd.of_precedes hd').of_precedes he
    refine yields_if (fun _ => ?_) fun _ => yields_pure (by simpa using ha)
    exact yields_then (ih he) fun more _ _ hmore => yields_pure (List.forall_mem_cons.2 ⟨ha, hmore⟩)

theorem yields_list1 (hentry : ∀ {c : Cursor}, c.IsCut → Yields entry c fun a _ => P a) (sign : String)
    (hc : c.IsCut) : Yields (list1 sign n entry) c fun found _ => ∀ a ∈ found, P a := by
  unfold list1
  refine yields_then (yields_entries hentry sign hc) fun found d _ hfound => ?_
  split
  · exact yields_failure
  · exact yields_past fun _ _ _ => yields_pure hfound

end Lists

theorem yields_verbatimSince {Q : TypeExpr → Cursor → Prop} (h : ∀ s, Q (.verbatim s) c) :
    Yields (verbatimSince start) c Q := by
  unfold verbatimSince trimmedSince
  exact yields_bind (yields_bind (yields_since (yields_pure (yields_pure (h _)))))

/-- A function type without a trait is ahead of this place. -/
def beginsFunction (c : Cursor) : Bool :=
  let begins (s : String) : Bool := s == "fn" || s == "extern" || functionModifiers.contains s
  if textOf c.ahead? == "default" then begins (textOf c.forward.ahead?) else begins (textOf c.ahead?)

theorem yields_atFunctionPointer {Q : Bool → Cursor → Prop} (h : Q (beginsFunction c) c) :
    Yields atFunctionPointer c Q := by
  unfold atFunctionPointer
  refine yields_bind (yields_textPair ?_)
  unfold beginsFunction at h
  dsimp only at h ⊢
  exact yields_if (fun hdefault => yields_pure (by simpa [hdefault] using h))
    fun hdefault => yields_pure (by simpa [hdefault] using h)

/-- What a type without a `+` is, as far as its first token tells. -/
theorem yields_bareType_shape : Yields (bareType n) c fun t _ =>
    (beginsFunction c = true ∨ textOf c.ahead? = "?" → ∃ s, t = .verbatim s) ∧
      (textOf c.ahead? = "(" → ∃ ts, t = .tuple ts) := by
  cases n with
  | zero => exact yields_failure
  | succ n =>
    have hnone : textOf c.ahead? = "(" → beginsFunction c = false := fun htext => by
      simp [beginsFunction, htext, functionModifiers]
    unfold bareType
    refine yields_bind (yields_get (yields_bind (yields_atFunctionPointer (yields_if (fun h => ?_) fun h => ?_))))
    · refine yields_past fun _ _ _ => yields_verbatimSince fun s => ⟨fun _ => ⟨s, rfl⟩, fun htext => ?_⟩
      exact absurd (h.symm.trans (hnone htext)) (by decide)
    · refine yields_bind (yields_text ?_)
      have h : beginsFunction c = false := Bool.eq_false_iff.2 h
      split
      case h_3 htext =>
        refine yields_past fun _ _ _ => yields_past fun _ _ _ => yields_if (fun _ => ?_) fun _ => ?_
        · exact yields_pure ⟨by simp [h, htext], fun _ => ⟨[], rfl⟩⟩
        · exact yields_past fun ts _ _ => yields_pure ⟨by simp [h, htext], fun _ => ⟨ts, rfl⟩⟩
      case h_6 htext =>
        refine yields_past fun _ _ _ => yields_past fun _ _ _ => ?_
        exact yields_verbatimSince fun s => ⟨fun _ => ⟨s, rfl⟩, by simp [htext]⟩
      all_goals exact yields_of_forall fun t c' => by simp_all

/-- Behind a lifetime bounds follow, which are kept as text. -/
theorem yields_type_lifetime (hkind : c.ahead?.map Token.kind = some .lifetime) :
    Yields (type n) c fun t _ => ∃ s, t = .verbatim s := by
  cases n with
  | zero => exact yields_failure
  | succ n =>
    unfold type
    refine yields_bind (yields_get (yields_bind (yields_take? (fun t _ _ => ?_) fun hne => absurd hkind hne)))
    refine yields_if (fun _ => yields_past fun _ _ _ => yields_if (fun _ => ?_) fun _ => yields_failure)
      fun hfalse => absurd rfl hfalse
    exact yields_past fun _ _ _ => yields_verbatimSince fun s => ⟨s, rfl⟩

/-- **The readers for types yield what is read**, with so much fuel. -/
structure TypesYield (n : Nat) : Prop where
  type : ∀ {c : Cursor}, c.IsCut → Yields (type n) c fun t _ => t.IsParsed
  bareType : ∀ {c : Cursor}, c.IsCut → Yields (bareType n) c fun t _ => t.IsParsed
  objectBound : ∀ {c : Cursor} isDyn, c.IsCut →
    Yields (objectBound n isDyn) c fun t _ => t.mayBound = true ∧ t.IsParsed
  path : ∀ {c : Cursor}, c.IsCut →
    Yields (path n) c fun found _ => found.2.mayBound = true ∧ found.2.IsParsed
  pathFrom : ∀ {c start : Cursor} {form : PathForm} {soFar : TypeExpr}, c.IsCut → start.Precedes c →
    form = .opened ∨ soFar.mayBound = true ∧ soFar.IsParsed →
    Yields (pathFrom n start form soFar) c fun found _ => found.2.mayBound = true ∧ found.2.IsParsed
  typeArguments : ∀ {c : Cursor}, c.IsCut → Yields (typeArguments n) c fun ts _ => AllParsed ts
  typeArgument : ∀ {c : Cursor}, c.IsCut → Yields (typeArgument n) c fun ts _ => AllParsed ts

theorem yields_type (h : TypesYield n) (hc : c.IsCut) : Yields (type (n + 1)) c fun t _ => t.IsParsed := by
  have hkept : ∀ {start d : Cursor}, Yields (verbatimSince start) d fun t _ => t.IsParsed :=
    yields_verbatimSince fun _ => trivial
  unfold type
  refine yields_bind (yields_get (yields_bind (yields_take? (fun t ht hkind => ?_) fun _ => ?_)))
  · exact yields_past fun _ _ _ => yields_if (fun _ => yields_past fun _ _ _ => hkept) fun _ => yields_failure
  · refine yields_if (fun hfalse => absurd hfalse (by decide)) fun _ => ?_
    refine yields_then (h.bareType hc) fun t _ _ ht => yields_past fun _ _ _ => ?_
    exact yields_if (fun _ => yields_past fun _ _ _ => hkept) fun _ => yields_pure ht

theorem yields_pathFrom {form : PathForm} {soFar : TypeExpr} (h : TypesYield n) (hc : c.IsCut)
    (hstart : start.Precedes c) (hsoFar : form = .opened ∨ soFar.mayBound = true ∧ soFar.IsParsed) :
    Yields (pathFrom (n + 1) start form soFar) c fun found _ =>
      found.2.mayBound = true ∧ found.2.IsParsed := by
  have hkept : ∀ {form : PathForm} {d : Cursor}, Yields (do return (form, ← verbatimSince start)) d
      fun found _ => found.2.mayBound = true ∧ found.2.IsParsed := fun {form d} =>
    yields_bind (yields_verbatimSince fun s => yields_pure ⟨rfl, trivial⟩)
  have hread : form ≠ .opened → soFar.mayBound = true ∧ soFar.IsParsed := hsoFar.resolve_left
  unfold pathFrom
  refine yields_bind (yields_textPair ?_)
  dsimp only
  refine yields_if (fun _ => yields_bind (yields_skip ?_)) fun _ => yields_if (fun _ => ?_) fun _ => ?_
  · have hforward := c.precedes_forward
    refine yields_if (fun _ => ?_) fun _ => ?_
    · refine yields_if (fun _ => yields_bind yields_failure) fun _ => yields_past fun _ d hd => ?_
      exact h.pathFrom (hc.of_precedes (hforward.trans hd)) (hstart.trans (hforward.trans hd)) (.inl rfl)
    · refine yields_bind (yields_take fun t ht hkind => yields_bind (yields_since ?_))
      have hword := c.forward.precedes_forward
      exact h.pathFrom (hc.of_precedes (hforward.trans hword)) (hstart.trans (hforward.trans hword))
        (.inr ⟨rfl, splitPath_upTo_ne_nil (hstart.trans hforward) ht hkind, trivial⟩)
  · split
    · next segments args htakes =>
      have hne : form ≠ .opened := by
        rintro rfl
        exact absurd htakes (by decide)
      refine yields_then (h.typeArguments hc) fun ts d hd hts => ?_
      exact h.pathFrom (hc.of_precedes hd) (hstart.trans hd) (.inr ⟨rfl, (hread hne).2.1, hts⟩)
    · exact yields_failure
  · refine yields_if (fun _ => ?_) fun _ => yields_if (fun _ => ?_) fun _ => yields_if (fun hform => ?_) fun _ => ?_
    · exact yields_past fun _ _ _ => yields_past fun _ _ _ => yields_if
        (fun _ => yields_past fun _ _ _ => hkept) fun _ => hkept
    · exact yields_past fun _ _ _ => yields_past fun _ _ _ => hkept
    · refine yields_pure (hread ?_)
      rintro rfl
      exact absurd hform (by decide)
    · exact yields_failure

theorem yields_path (h : TypesYield n) (hc : c.IsCut) :
    Yields (path (n + 1)) c fun found _ => found.2.mayBound = true ∧ found.2.IsParsed := by
  unfold path
  refine yields_bind (yields_get (yields_past fun ahead d hd => ?_))
  split
  · refine yields_past fun _ e he => yields_past fun _ f hf => yields_past fun lifted g hg => ?_
    have hg := ((hd.trans he).trans hf).trans hg
    have hlast : ∀ {c' : Cursor}, c.Precedes c' → Yields (do expect ">"; pathFrom n c .opened (.path [] [])) c'
        fun found _ => found.2.mayBound = true ∧ found.2.IsParsed := fun hc' =>
      yields_past fun _ _ hd' => h.pathFrom (hc.of_precedes (hc'.trans hd')) (hc'.trans hd') (.inl rfl)
    exact yields_if (fun _ => yields_past fun _ _ hd' => hlast (hg.trans hd')) fun _ => hlast hg
  · exact h.pathFrom (hc.of_precedes hd) hd (.inl rfl)
  · refine yields_past fun name e he => ?_
    have he := hd.trans he
    split
    · exact h.pathFrom (hc.of_precedes he) he (.inr ⟨rfl, trivial⟩)
    · refine yields_past fun first f hf => ?_
      exact h.pathFrom (hc.of_precedes (he.trans hf)) (he.trans hf) (.inr ⟨rfl, by simp, trivial⟩)

theorem yields_typeArguments (h : TypesYield n) (hc : c.IsCut) :
    Yields (typeArguments (n + 1)) c fun ts _ => AllParsed ts := by
  unfold typeArguments
  refine yields_past fun _ d hd => ?_
  refine yields_then (yields_list1 h.typeArgument ">" (hc.of_precedes hd)) fun found _ _ hfound => ?_
  refine yields_pure (allParsed_iff.2 fun t ht => ?_)
  obtain ⟨ts, hts, ht⟩ := List.mem_flatten.1 ht
  exact allParsed_iff.1 (hfound ts hts) t ht

theorem yields_typeArgument (h : TypesYield n) (hc : c.IsCut) :
    Yields (typeArgument (n + 1)) c fun ts _ => AllParsed ts := by
  -- bounds behind an argument are kept as text
  have hlast : ∀ {found : List TypeExpr} {d : Cursor}, AllParsed found → Yields (do
      let behind ← get
      if (← text) == ":" then
        bounds n
        return found ++ [← verbatimSince behind]
      else return found) d fun ts _ => AllParsed ts := by
    refine fun hfound => yields_past fun _ _ _ => yields_past fun _ _ _ => yields_if (fun _ => ?_) fun _ =>
      yields_pure hfound
    refine yields_past fun _ _ _ => yields_bind (yields_verbatimSince fun s => yields_pure ?_)
    exact allParsed_iff.2 (List.forall_mem_append.2 ⟨allParsed_iff.1 hfound, by simp [IsParsed]⟩)
  have hkept : ∀ {d : Cursor}, Yields (do
      let t ← verbatimSince c
      let found ← pure [t]
      let behind ← get
      if (← text) == ":" then
        bounds n
        return found ++ [← verbatimSince behind]
      else return found) d fun ts _ => AllParsed ts :=
    yields_bind (yields_verbatimSince fun s => yields_bind (yields_pure (hlast ⟨trivial, trivial⟩)))
  unfold typeArgument
  refine yields_bind (yields_get (yields_bind (yields_text (yields_bind (yields_kind ?_)))))
  dsimp only
  refine yields_if (fun _ => yields_if (fun _ => ?_) fun _ => ?_) fun _ => yields_if (fun _ => ?_) fun _ =>
    yields_if (fun _ => ?_) fun _ => ?_
  · exact yields_then (h.type hc) fun t _ _ ht => yields_bind (yields_pure (hlast ⟨ht, trivial⟩))
  · exact yields_past fun _ _ _ => yields_bind (yields_pure (hlast trivial))
  · exact yields_past fun _ _ _ => hkept
  · exact yields_past fun _ _ _ => hkept
  · refine yields_then (h.type hc) fun t _ _ ht => yields_past fun _ _ _ => ?_
    split
    · exact yields_past fun _ _ _ => yields_past fun _ _ _ => hkept
    · exact yields_bind yields_failure
    · exact yields_bind (yields_pure (hlast ⟨ht, trivial⟩))

theorem yields_objectBound (h : TypesYield n) (isDyn : Bool) (hc : c.IsCut) :
    Yields (objectBound (n + 1) isDyn) c fun t _ => t.mayBound = true ∧ t.IsParsed := by
  unfold objectBound
  refine yields_bind (yields_get (yields_bind (yields_atFunctionPointer (yields_if (fun hbegins => ?_) fun _ => ?_))))
  · refine (yields_bareType_shape (n := n) (c := c)).imp fun t _ hshape => ?_
    obtain ⟨s, rfl⟩ := hshape.1 (.inl hbegins)
    exact ⟨rfl, trivial⟩
  refine yields_bind (yields_text ?_)
  split
  · exact yields_past fun _ _ _ => yields_past fun _ _ _ => yields_past fun _ _ _ =>
      yields_verbatimSince fun s => ⟨rfl, trivial⟩
  · next htext =>
    refine (yields_bareType_shape (n := n) (c := c)).imp fun t _ hshape => ?_
    obtain ⟨s, rfl⟩ := hshape.1 (.inr htext)
    exact ⟨rfl, trivial⟩
  · next htext =>
    have hbare := (yields_bareType_shape (n := n) (c := c)).and (h.bareType hc)
    refine yields_then hbare fun t _ _ ht => ?_
    obtain ⟨⟨-, hshape⟩, hparsed⟩ := ht
    obtain ⟨ts, rfl⟩ := hshape htext
    cases ts with
    | nil => exact yields_failure
    | cons u us => exact yields_pure ⟨rfl, hparsed⟩
  · refine yields_bind (yields_kind (yields_if (fun hkind => ?_) fun _ => ?_))
    · refine (yields_type_lifetime (n := n) ?_).imp fun t _ ht => ?_
      · simpa using (Bool.and_eq_true_iff.1 hkind).2
      · obtain ⟨s, rfl⟩ := ht
        exact ⟨rfl, trivial⟩
    · refine yields_then (h.path hc) fun found _ _ hfound => ?_
      exact yields_if (fun _ => yields_pure hfound) fun _ => yields_failure

/-- The length of an array, behind its semicolon. -/
theorem yields_length {element : TypeExpr} (helement : element.IsParsed) (hc : c.IsCut) : Yields (do
    let before ← get
    if !(← skipUntil [] n) then failure
    let length ← trimmedSince before
    expect "]"
    return (.array element length : TypeExpr)) c fun t _ => IsParsed t := by
  obtain ⟨p, cs, hrest⟩ := hc
  refine yields_bind (yields_get (yields_bind ((yields_skipUntil n c).imp ?_)))
  rintro moved d ⟨done, hpassed, hpasses, hmoved⟩
  dsimp only
  refine yields_if (fun _ => yields_bind yields_failure) fun hne => ?_
  unfold trimmedSince
  refine yields_bind (yields_bind (yields_since (yields_pure (yields_bind (yields_expect fun htext => ?_)))))
  obtain ⟨t, ht⟩ : ∃ t, d.ahead? = some t := by
    cases hahead : d.ahead? with
    | none => simp [textOf, hahead] at htext
    | some t => exact ⟨t, rfl⟩
  refine yields_pure ⟨helement, ?_⟩
  refine isLength_of_passed hrest hpassed (hmoved (by simpa using hne)) hpasses ht ?_
  rw [ht] at htext
  exact htext

theorem yields_bareType (h : TypesYield n) (hc : c.IsCut) :
    Yields (bareType (n + 1)) c fun t _ => t.IsParsed := by
  have hkept : ∀ {d : Cursor}, Yields (verbatimSince c) d fun t _ => t.IsParsed :=
    yields_verbatimSince fun _ => trivial
  unfold bareType
  refine yields_bind (yields_get (yields_bind (yields_atFunctionPointer (yields_if (fun _ => ?_) fun _ => ?_))))
  · exact yields_past fun _ _ _ => hkept
  refine yields_bind (yields_text ?_)
  have hforward := hc.of_precedes c.precedes_forward
  split
  · refine yields_bind (yields_skip (yields_bind (yields_take? (fun t ht hkind => ?_) fun _ => ?_)))
    · have hname := hforward.isLifetimeName ht hkind
      refine yields_past fun mutable d hd => ?_
      have hd := (hforward.of_precedes c.forward.precedes_forward).of_precedes hd
      exact yields_then (h.bareType hd) fun t _ _ ht => yields_pure ⟨by simpa using hname, ht⟩
    · refine yields_past fun mutable d hd => ?_
      exact yields_then (h.bareType (hforward.of_precedes hd)) fun t _ _ ht => yields_pure ⟨rfl, ht⟩
  · refine yields_past fun _ _ _ => yields_past fun _ _ _ => ?_
    dsimp only
    exact yields_if (fun _ => yields_past fun _ _ _ => yields_past fun _ _ _ => hkept)
      fun _ => yields_past fun _ _ _ => hkept
  · refine yields_past fun _ d hd => yields_past fun _ e he => yields_if (fun _ => yields_pure trivial) fun _ => ?_
    have hcut := (hc.of_precedes hd).of_precedes he
    exact yields_then (yields_list1 h.type ")" hcut) fun ts _ _ hts => yields_pure (allParsed_iff.2 hts)
  · refine yields_bind (yields_skip (yields_then (h.type hforward) fun element d hd helement => ?_))
    refine yields_past fun _ e he => yields_if (fun _ => ?_) fun _ => yields_past fun _ _ _ => yields_pure helement
    exact yields_length helement ((hforward.of_precedes hd).of_precedes he)
  · exact yields_past fun _ _ _ => hkept
  · exact yields_past fun _ _ _ => yields_past fun _ _ _ => hkept
  · refine yields_bind (yields_skip (yields_then (h.objectBound true hforward) fun t _ _ ht => ?_))
    exact yields_pure ⟨.inl rfl, ht⟩
  · have hbound : ∀ {d : Cursor}, d.IsCut → Yields (do
        return (.traitObject "impl" (← objectBound n false) : TypeExpr)) d fun t _ => IsParsed t :=
      fun hd => yields_then (h.objectBound false hd) fun t _ _ ht => yields_pure ⟨.inr rfl, ht⟩
    refine yields_bind (yields_skip (yields_past fun _ d hd => ?_))
    have hd := hforward.of_precedes hd
    exact yields_if (fun _ => yields_past fun _ _ he => hbound (hd.of_precedes he)) fun _ => hbound hd
  · refine yields_past fun _ _ _ => yields_past fun _ _ _ => yields_past fun _ _ _ => ?_
    dsimp only
    refine yields_if (fun _ => yields_past fun _ _ _ => hkept) fun _ => yields_past fun _ _ _ => ?_
    exact yields_if (fun _ => yields_bind yields_failure) fun _ => hkept
  · exact yields_then (h.path hc) fun found _ _ hfound => yields_pure hfound.2

/-- **Every type that is read is put together as the grammar puts types together.** -/
theorem typesYield (n : Nat) : TypesYield n := by
  induction n with
  | zero => constructor <;> intros <;> exact yields_failure
  | succ n ih =>
    exact {
      type := yields_type ih
      bareType := yields_bareType ih
      objectBound := yields_objectBound ih
      path := yields_path ih
      pathFrom := yields_pathFrom ih
      typeArguments := yields_typeArguments ih
      typeArgument := yields_typeArgument ih }

end Reader

end Source

end ModelPool
