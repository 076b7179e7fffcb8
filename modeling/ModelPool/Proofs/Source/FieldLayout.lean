import ModelPool.Proofs.Source.Comments
import ModelPool.Proofs.Source.Stretches
import ModelPool.Proofs.Source.TypeStops

/-!
# Proofs/Source/FieldLayout — named fields have the documentation that stands before them

    {  /// a   #[x]   // b    f: u32   /// c    ,   /** d */    g: u64   }
       └────── row ──────┘    body     └── and c, d before g ┘  body

Comments and attributes stand in a row before a named field, and the comments behind the field before it count as
well, whichever side of the comma they stand on.  The documentation of a field is what is read in these comments: a
field begins and ends with a token that is no comment, so no comment inside of one is lost on another.

* `IsRow`, `FieldsLaid`, `HoldsFields` — the layout of fields among tokens.
* `AreDocs` — the documentation of comments.
* `Reader.yields_fieldsBehind_laid` — fields stand one behind the other.
* `Reader.IsStatement.holdsFields` — and the braces around them in their statement.
-/

namespace ModelPool

/-! ## Lists of named fields -/

/-- The lists of named fields in the body of a struct or of a variant. -/
def Fields.lists : Fields → List (List Field)
  | named fields => [fields]
  | tuple _ | unit => []

/-- The lists of named fields in an item, in order. -/
def ItemKind.fieldLists : ItemKind → List (List Field)
  | struct fields => fields.lists
  | enum variants => variants.flatMap fun v => v.fields.lists
  | union | typeAlias _ | trait | function _ | const _ | static _ | module | macroRules => []

namespace Source

/-! ## Comments in a row -/

/-- The lines of documentation that are read in comments. -/
def docsOfTokens (comments : List Token) : List String := comments.filterMap fun t => documentation? t.text

/-- **The documentation of comments**: what is read in them.  If none is misread, that is what they document by the
rules; and an ordinary comment changes nothing. -/
structure AreDocs (comments : List Token) (docs : List String) : Prop where
  read : docs = docsOfTokens comments
  rules : (∀ t ∈ comments, ¬ IsMisread t.text.toList) →
    ∀ lines, DocsOf (comments.map Token.text) lines ↔ lines = docs
  ordinary : ∀ before t behind, comments = before ++ t :: behind → ¬ IsMisread t.text.toList →
    (∀ line, ¬ Documents t.text.toList line) → docs = docsOfTokens (before ++ behind)

/-- The tokens of an attribute, as it is read from its first one on. -/
structure IsAttributeRun (ts : List Token) : Prop where
  first : ∃ t, ts.head? = some t ∧ t.isComment = false
  read : ∃ (fuel : Nat) (inner : Bool) (text : String) (c c' : Cursor),
    (Reader.attributeText fuel inner).run c = some (text, c') ∧ c.between c' = ts

/-- **Comments and attributes in a row**, with the comments among them. -/
inductive IsRow : List Token → List Token → Prop where
  | nil : IsRow [] []
  | comment {t : Token} {ts comments : List Token} (ht : t.isComment = true) (h : IsRow ts comments) :
      IsRow (t :: ts) (t :: comments)
  | run {run ts comments : List Token} (hrun : IsAttributeRun run) (h : IsRow ts comments) :
      IsRow (run ++ ts) comments

section Rows

variable {ts us comments more : List Token}

theorem docsOfTokens_append (ts us : List Token) : docsOfTokens (ts ++ us) = docsOfTokens ts ++ docsOfTokens us :=
  List.filterMap_append

theorem areDocs_docsOfTokens (h : ∀ t ∈ comments, IsComment t.text.toList) :
    AreDocs comments (docsOfTokens comments) where
  read := rfl
  rules hread lines := by
    have hrow : docsOfTokens comments = (comments.map Token.text).filterMap documentation? := by
      rw [List.filterMap_map]
      rfl
    have hdocs := docsOf_filterMap (List.forall_mem_map.2 h) (List.forall_mem_map.2 hread)
    rw [hrow]
    exact ⟨fun hlines => hlines.unique hdocs, fun heq => heq ▸ hdocs⟩
  ordinary := by
    rintro before t behind rfl hread hnone
    have ht := documentation?_of_ordinary (h t (by simp)) hread hnone
    simp [docsOfTokens, ht]

theorem isRow_comments (h : ∀ t ∈ ts, t.isComment = true) : IsRow ts ts := by
  induction ts with
  | nil => exact .nil
  | cons t ts ih =>
    obtain ⟨ht, hts⟩ := List.forall_mem_cons.1 h
    exact .comment ht (ih hts)

/-- The comments of a row are among its tokens. -/
theorem IsRow.mem (h : IsRow ts comments) : ∀ t ∈ comments, t ∈ ts ∧ t.isComment = true := by
  induction h with
  | nil => exact List.forall_mem_nil _
  | comment ht _ ih =>
    refine List.forall_mem_cons.2 ⟨⟨List.mem_cons_self, ht⟩, fun u hu => ?_⟩
    exact (ih u hu).imp_left (List.mem_cons_of_mem _)
  | run _ _ ih => exact fun u hu => (ih u hu).imp_left (List.mem_append_right _)

theorem IsRow.append (h : IsRow ts comments) (h' : IsRow us more) : IsRow (ts ++ us) (comments ++ more) := by
  induction h with
  | nil => exact h'
  | comment ht _ ih => exact .comment ht ih
  | run hrun _ ih =>
    rw [List.append_assoc]
    exact .run hrun ih

end Rows

namespace Cursor

variable {c d e : Cursor} {comments more : List Token}

/-- **A row stands between two places**, and these are the comments in it. -/
structure Collects (c later : Cursor) (comments : List Token) : Prop where
  row : IsRow (c.between later) comments
  comments : ∀ t ∈ comments, IsComment t.text.toList

theorem Collects.trans (hcd : c.Precedes d) (hde : d.Precedes e) (h : c.Collects d comments)
    (h' : d.Collects e more) : c.Collects e (comments ++ more) where
  row := by
    rw [hcd.between_trans hde]
    exact h.row.append h'.row
  comments := List.forall_mem_append.2 ⟨h.comments, h'.comments⟩

/-- Comments ahead are a row by themselves. -/
theorem IsCut.collects_comments (hc : c.IsCut) (h : ∀ t ∈ c.between d, t.isComment = true) :
    c.Collects d (c.between d) where
  row := isRow_comments h
  comments t ht := by
    obtain ⟨p, cs, hrest⟩ := hc
    exact isComment_of_mem_tokensFrom (hrest ▸ List.mem_of_mem_take ht) (h t ht)

/-- An attribute is a row with no comment to count. -/
theorem collects_attribute (h : IsAttributeRun (c.between d)) : c.Collects d [] :=
  ⟨List.append_nil (c.between d) ▸ .run h .nil, List.forall_mem_nil _⟩

/-- A place with no comment ahead. -/
def IsVisible (c : Cursor) : Prop := ∀ t ∈ c.rest.head?, t.isComment = false

/-- What is taken from there begins with no comment. -/
theorem IsVisible.first (hc : c.IsVisible) (h : c.Precedes d) (hne : c.between d ≠ []) :
    ∃ t, (c.between d).head? = some t ∧ t.isComment = false := by
  obtain ⟨t, r, hbetween⟩ := List.exists_cons_of_ne_nil hne
  refine ⟨t, by rw [hbetween]; rfl, hc t ?_⟩
  rw [h.rest_eq, hbetween]
  rfl

end Cursor

/-! ## Fields -/

/-- **The tokens of a field itself**, as it is read: they begin and end with a token that is no comment. -/
structure IsFieldBody (ts : List Token) (f : Field) : Prop where
  first : ∃ t, ts.head? = some t ∧ t.isComment = false
  last : ∃ t, ts.getLast? = some t ∧ t.isComment = false
  read : ∃ (fuel : Nat) (c c' : Cursor), (Reader.namedField fuel f.docs).run c = some (f, c') ∧ c.between c' = ts

/-- **How named fields are laid out** behind comments that wait for the first of them: before each field stands a
row, behind it may stand comments, and behind these the comma.  The documentation of a field is that of the comments
that stand between the comma before it, or the opening brace, and itself. -/
inductive FieldsLaid : List Token → List Token → List Field → Prop where
  | none {waiting behind : List Token} (hbehind : ∀ t ∈ behind, t.isComment = true) : FieldsLaid waiting behind []
  | last {waiting row comments body behind : List Token} {f : Field} (hrow : IsRow row comments)
      (hbody : IsFieldBody body f) (hdocs : AreDocs (waiting ++ comments) f.docs)
      (hbehind : ∀ t ∈ behind, t.isComment = true) : FieldsLaid waiting (row ++ body ++ behind) [f]
  | more {waiting row comments body behind : List Token} {comma : Token} {ts : List Token} {f : Field}
      {fs : List Field} (hrow : IsRow row comments) (hbody : IsFieldBody body f)
      (hdocs : AreDocs (waiting ++ comments) f.docs) (hbehind : ∀ t ∈ behind, t.isComment = true)
      (hcomma : comma.text = ",") (h : FieldsLaid behind ts fs) :
      FieldsLaid waiting (row ++ body ++ behind ++ comma :: ts) (f :: fs)

/-- What stands between braces: fields, or a comma alone. -/
inductive BodyLaid : List Token → List Field → Prop where
  | fields {ts : List Token} {fs : List Field} (h : FieldsLaid [] ts fs) : BodyLaid ts fs
  | comma {before behind : List Token} {comma : Token} (hbefore : ∀ t ∈ before, t.isComment = true)
      (hcomma : comma.text = ",") (hbehind : ∀ t ∈ behind, t.isComment = true) :
      BodyLaid (before ++ comma :: behind) []

/-- **The lists of named fields among tokens**, each between its braces, one behind the other. -/
inductive HoldsFields : List Token → List (List Field) → Prop where
  | none (ts : List Token) : HoldsFields ts []
  | body {before inner behind : List Token} {opening closing : Token} {fs : List Field} {lists : List (List Field)}
      (hopening : opening.text = openBrace) (hinner : BodyLaid inner fs) (hclosing : closing.text = closeBrace)
      (h : HoldsFields behind lists) :
      HoldsFields (before ++ opening :: (inner ++ closing :: behind)) (fs :: lists)

section Layout

variable {waiting ts us comments : List Token} {fs : List Field} {lists others : List (List Field)}

/-- Comments may stand behind the last field. -/
theorem FieldsLaid.concat (h : FieldsLaid waiting ts fs) (hcomments : ∀ t ∈ comments, t.isComment = true) :
    FieldsLaid waiting (ts ++ comments) fs := by
  induction h with
  | none hbehind => exact .none (List.forall_mem_append.2 ⟨hbehind, hcomments⟩)
  | last hrow hbody hdocs hbehind =>
    rw [List.append_assoc]
    exact .last hrow hbody hdocs (List.forall_mem_append.2 ⟨hbehind, hcomments⟩)
  | more hrow hbody hdocs hbehind hcomma _ ih =>
    rw [List.append_assoc _ (_ :: _), List.cons_append]
    exact .more hrow hbody hdocs hbehind hcomma ih

theorem BodyLaid.concat (h : BodyLaid ts fs) (hcomments : ∀ t ∈ comments, t.isComment = true) :
    BodyLaid (ts ++ comments) fs := by
  cases h with
  | fields h => exact .fields (h.concat hcomments)
  | comma hbefore hcomma hbehind =>
    rw [List.append_assoc, List.cons_append]
    exact .comma hbefore hcomma (List.forall_mem_append.2 ⟨hbehind, hcomments⟩)

theorem HoldsFields.behind (us : List Token) (h : HoldsFields ts lists) : HoldsFields (us ++ ts) lists := by
  cases h with
  | none => exact .none _
  | body hopening hinner hclosing h =>
    rw [← List.append_assoc]
    exact .body hopening hinner hclosing h

theorem HoldsFields.append (h : HoldsFields ts lists) (h' : HoldsFields us others) :
    HoldsFields (ts ++ us) (lists ++ others) := by
  induction h with
  | none ts => exact h'.behind ts
  | body hopening hinner hclosing _ ih =>
    rw [List.append_assoc, List.cons_append, List.append_assoc, List.cons_append]
    exact .body hopening hinner hclosing ih

end Layout

/-- The lists of named fields in a statement, in order. -/
def Statement.fieldLists : Statement → List (List Field)
  | item i => i.kind.fieldLists
  | comment _ | innerAttribute _ | outerAttribute _ | use _ _ | impl _ | other => []

namespace Cursor

variable {c d e : Cursor} {lists others : List (List Field)}

/-- **These lists of fields stand between two places**, unless an error has been recorded on the way. -/
structure HoldsFields (c later : Cursor) (lists : List (List Field)) : Prop where
  precedes : c.Precedes later
  fields : later.errors = c.errors → Source.HoldsFields (c.between later) lists

theorem Precedes.holdsNone (h : c.Precedes d) : c.HoldsFields d [] := ⟨h, fun _ => .none _⟩

theorem HoldsFields.trans (h : c.HoldsFields d lists) (h' : d.HoldsFields e others) :
    c.HoldsFields e (lists ++ others) where
  precedes := h.precedes.trans h'.precedes
  fields herrors := by
    have hfirst := h.precedes.errors_eq h'.precedes herrors
    rw [h.precedes.between_trans h'.precedes]
    exact (h.fields hfirst).append (h'.fields (herrors.trans hfirst.symm))

theorem HoldsFields.past (hcd : c.Precedes d) (h : d.HoldsFields e lists) : c.HoldsFields e lists :=
  hcd.holdsNone.trans h

theorem HoldsFields.before (h : c.HoldsFields d lists) (hde : d.Precedes e) : c.HoldsFields e lists :=
  lists.append_nil ▸ h.trans hde.holdsNone

end Cursor

namespace Cursor

variable {c d : Cursor} {t : Token} {lists others : List (List Field)}

theorem IsVisible.takeWhile_eq (hc : c.IsVisible) : c.rest.takeWhile Token.isComment = [] := by
  cases hrest : c.rest with
  | nil => rfl
  | cons t r => exact List.takeWhile_cons_of_neg (by simp [hc t (by rw [hrest]; rfl)])

/-- Where no comment is ahead, the next token is passed over by itself. -/
theorem IsVisible.passed_forward (hc : c.IsVisible) (ht : c.ahead? = some t) : c.Passed [t] c.forward := by
  obtain ⟨comments, hpassed, hcomments, -⟩ := exists_passed_forward ht
  cases comments with
  | nil => exact hpassed
  | cons u comments =>
    have hu := hc u (by rw [hpassed.rest]; rfl)
    exact absurd (hu.symm.trans (hcomments u List.mem_cons_self)) (by decide)

/-- Some token is taken where one is passed over. -/
theorem between_ne_nil (ht : c.ahead? = some t) (h : c.forward.Precedes d) : c.between d ≠ [] := by
  obtain ⟨comments, hpassed, -, -⟩ := exists_passed_forward ht
  rw [c.precedes_forward.between_trans h, hpassed.between_eq]
  simp

/-- A place right behind a token that is no comment. -/
theorem StopsAt.exists_last (h : c.StopsAt d) (hc : c.IsCut) (herrors : d.errors = c.errors) :
    ∃ t, (c.between d).getLast? = some t ∧ t.isComment = false := by
  obtain ⟨t, ht, hlast⟩ := h.last herrors
  refine ⟨t, ht, hlast.elim id fun hclosing => Bool.eq_false_iff.2 fun hcomment => ?_⟩
  obtain ⟨p, cs, hrest⟩ := hc
  have hmem : t ∈ tokensFrom p cs := hrest ▸ List.mem_of_mem_take (List.mem_of_getLast? ht)
  exact absurd (hclosing.symm.trans (isClosingBracket_of_comment hmem hcomment)) (by decide)

end Cursor

/-! ## Readers -/

namespace Reader

open Cursor

variable {n : Nat} {c : Cursor} {h : Heading}

/-- The comments ahead are passed over, and the documentation in them is found. -/
theorem yields_docsAhead : Yields docsAhead c fun docs c' =>
    (∀ t ∈ c.between c', t.isComment = true) ∧ docs = docsOfTokens (c.between c') ∧ c'.IsVisible := by
  obtain ⟨comments, hpassed, hcomments, hvisible⟩ := c.passed_comments
  have htake : c.rest.takeWhile Token.isComment = comments := by
    rw [hpassed.rest, List.takeWhile_append_of_pos hcomments, IsVisible.takeWhile_eq hvisible, List.append_nil]
  unfold docsAhead
  refine yields_bind (yields_get (yields_bind (yields_modify (yields_pure ?_))))
  rw [hpassed.between_eq, htake]
  exact ⟨hcomments, rfl, hvisible⟩

/-- An attribute that no comment stands before is read from its first token on. -/
theorem yields_isAttributeRun {inner : Bool} (hc : c.IsVisible) :
    Yields (attributeText n inner) c fun _ c' => IsAttributeRun (c.between c') := by
  intro text c' hrun
  have hne : Yields (attributeText n inner) c fun _ c' => c.between c' ≠ [] := by
    unfold attributeText
    refine yields_bind (yields_get (yields_bind (yields_expect fun hhash => ?_)))
    obtain ⟨t, ht⟩ := exists_ahead?_of_textOf (by decide) hhash
    exact fun _ _ hrest => between_ne_nil ht (Moves.precedes hrest)
  exact ⟨hc.first (Moves.precedes hrun) (hne _ _ hrun), n, inner, text, c, c', hrun, rfl⟩

/-- A row is passed over, and the documentation in its comments is found. -/
theorem yields_docsAmongAttributes (hc : c.IsCut) : Yields (docsAmongAttributes n) c fun docs c' =>
    (∃ comments, c.Collects c' comments ∧ docs = docsOfTokens comments) ∧ c'.IsVisible := by
  induction n generalizing c with
  | zero => exact yields_failure
  | succ n ih =>
    unfold docsAmongAttributes
    refine yields_then yields_docsAhead ?_
    rintro _ d hd ⟨hcomments, rfl, hvisible⟩
    have hahead := hc.collects_comments hcomments
    have hcut := hc.of_precedes hd
    refine yields_bind (yields_text (yields_if (fun _ => ?_) fun _ => yields_pure ⟨⟨_, hahead, rfl⟩, hvisible⟩))
    refine yields_then (yields_isAttributeRun hvisible) fun _ e he hattribute => ?_
    refine yields_then (ih (hcut.of_precedes he)) ?_
    rintro _ c' hc' ⟨⟨comments, hmore, rfl⟩, hvisible'⟩
    have hrow := (hahead.trans hd he (collects_attribute hattribute)).trans (hd.trans he) hc' hmore
    exact yields_pure ⟨⟨_, hrow, by rw [List.append_nil, docsOfTokens_append]⟩, hvisible'⟩

instance (docs : List String) : Stops (namedField n docs) := by unfold namedField; infer_instance

theorem yields_namedField_body {docs : List String} (hc : c.IsCut) (hvisible : c.IsVisible) :
    Yields (namedField n docs) c fun f c' => f.docs = docs ∧
      (c'.errors = c.errors → IsFieldBody (c.between c') f) := by
  have hdocs : Yields (namedField n docs) c fun f _ => f.docs = docs := by
    unfold namedField
    exact yields_past fun _ _ _ => yields_past fun _ _ _ => yields_past fun _ _ _ => yields_past fun _ _ _ =>
      yields_past fun _ _ _ => yields_pure rfl
  intro f c' hrun
  refine ⟨hdocs f c' hrun, fun herrors => ?_⟩
  have hlast := (Stops.stopsAt hrun).exists_last hc herrors
  refine ⟨hvisible.first (Moves.precedes hrun) ?_, hlast, n, c, c', hdocs f c' hrun ▸ hrun, rfl⟩
  obtain ⟨t, ht, -⟩ := hlast
  rintro hnil
  exact absurd ht (by simp [hnil])

/-- **Fields stand one behind the other**, each with the documentation before it. -/
theorem yields_fieldsBehind_laid (waiting : List Token) (hc : c.IsCut)
    (hwaiting : ∀ t ∈ waiting, IsComment t.text.toList) : Yields (fieldsBehind n (docsOfTokens waiting)) c fun fs c' =>
      c'.errors = c.errors → FieldsLaid waiting (c.between c') fs := by
  induction n generalizing c waiting with
  | zero => exact yields_failure
  | succ n ih =>
    unfold fieldsBehind
    refine yields_then yields_docsAhead ?_
    rintro _ d hd ⟨hcomments, rfl, -⟩
    refine yields_bind (yields_closes fun _ => yields_if (fun _ => yields_pure fun _ => .none hcomments) fun _ => ?_)
    refine yields_then (yields_docsAmongAttributes (hc.of_precedes hd)) ?_
    rintro _ e he ⟨⟨comments, hamong, rfl⟩, hvisible⟩
    have hrow := (hc.collects_comments hcomments).trans hd he hamong
    have hce := hd.trans he
    refine yields_then (yields_namedField_body (hc.of_precedes hce) hvisible) ?_
    rintro f g hg ⟨hdocs, hbody⟩
    have hcg := hce.trans hg
    have hfield : ∀ {c' : Cursor}, g.Precedes c' → c'.errors = c.errors → IsFieldBody (e.between g) f :=
      fun hgc herrors => hbody ((hcg.errors_eq hgc herrors).trans (hce.errors_eq (hg.trans hgc) herrors).symm)
    have hdocs : AreDocs (waiting ++ (c.between d ++ comments)) f.docs := by
      rw [hdocs, List.append_assoc, ← docsOfTokens_append, ← docsOfTokens_append]
      exact areDocs_docsOfTokens (List.forall_mem_append.2 ⟨hwaiting, hrow.comments⟩)
    refine yields_then yields_docsAhead ?_
    rintro _ k hk ⟨hbehind, rfl, hvisible'⟩
    have hck := hcg.trans hk
    have hbetween : c.between k = c.between e ++ e.between g ++ g.between k := by
      rw [hcg.between_trans hk, hce.between_trans hg]
    refine yields_bind (yields_optional (fun hcomma => yields_if (fun _ => ?_) (fun hfalse => absurd rfl hfalse))
      fun _ => yields_if nofun fun _ => yields_pure fun herrors => ?_)
    · obtain ⟨comma, ht⟩ := exists_ahead?_of_textOf (by decide) hcomma
      have hforward := k.precedes_forward
      have hwaiting' := ((hc.of_precedes hcg).collects_comments hbehind).comments
      refine yields_then (ih _ ((hc.of_precedes hck).of_precedes hforward) hwaiting') fun fs c' hc' hfs => ?_
      refine yields_pure fun herrors => ?_
      have hrest := hfs (herrors.trans ((hck.trans hforward).errors_eq hc' herrors).symm)
      rw [hck.between_trans (hforward.trans hc'), hforward.between_trans hc',
        (hvisible'.passed_forward ht).between_eq, hbetween]
      refine .more hrow.row (hfield (hk.trans (hforward.trans hc')) herrors) hdocs hbehind ?_ hrest
      rw [← hcomma, ht]
      rfl
    · rw [hbetween]
      exact .last hrow.row (hfield hk herrors) hdocs hbehind

/-- A closing sign stands behind comments, unless an error is recorded. -/
theorem yields_close {s : String} (hs : s ≠ "") : Yields (close s) c fun _ c' => c'.errors = c.errors →
    ∃ comments t, c.between c' = comments ++ [t] ∧ (∀ u ∈ comments, u.isComment = true) ∧ t.text = s := by
  unfold close
  refine yields_bind (yields_atEnd (yields_if (fun _ => yields_modify fun herrors => ?_) fun _ => ?_))
  · have hlength := congrArg List.length herrors
    simp [c.errors_passComments] at hlength
  · refine yields_expect fun htext _ => ?_
    obtain ⟨t, ht⟩ := exists_ahead?_of_textOf hs htext
    obtain ⟨comments, hpassed, hcomments, -⟩ := exists_passed_forward ht
    exact ⟨comments, t, hpassed.between_eq, hcomments, by rw [← htext, ht]; rfl⟩

/-- **Named fields stand between braces.** -/
theorem yields_namedFields_held (hc : c.IsCutBehind) :
    Yields (namedFields n) c fun fields c' => c.HoldsFields c' fields.lists := by
  unfold namedFields
  refine yields_bind (yields_expect fun hopening => ?_)
  obtain ⟨opening, ht⟩ := exists_ahead?_of_textOf (by decide) hopening
  obtain ⟨before, hpassed, -, -⟩ := exists_passed_forward ht
  have hcut := hc.forward ht
  have hend : ∀ {fs : List Field} {e : Cursor}, c.forward.Precedes e →
      (e.errors = c.forward.errors → BodyLaid (c.forward.between e) fs) →
      Yields (close closeBrace >>= fun _ => pure (Fields.named fs)) e fun fields c' => c.HoldsFields c' fields.lists := by
    intro fs e he hbody
    refine yields_then (yields_close (by decide)) fun _ c' hc' hclose => yields_pure ?_
    refine ⟨c.precedes_forward.trans (he.trans hc'), fun herrors => ?_⟩
    have hforward := c.precedes_forward.errors_eq (he.trans hc') herrors
    have herrors' := (c.precedes_forward.trans he).errors_eq hc' herrors
    obtain ⟨comments, closing, hbetween, hcomments, hclosing⟩ := hclose (herrors.trans herrors'.symm)
    have hinner := (hbody (herrors'.trans hforward.symm)).concat hcomments
    have hopening : opening.text = openBrace := by
      rw [← hopening, ht]
      rfl
    have hall : c.between c' = before ++ opening :: ((c.forward.between e ++ comments) ++ closing :: []) := by
      rw [c.precedes_forward.between_trans (he.trans hc'), he.between_trans hc', hbetween, hpassed.between_eq]
      simp
    rw [hall]
    exact .body hopening hinner hclosing (.none [])
  refine yields_bind (yields_optional (fun hcomma => ?_) fun _ => ?_)
  · obtain ⟨comma, ht'⟩ := exists_ahead?_of_textOf (by decide) hcomma
    obtain ⟨comments, hcomments, hall, -⟩ := exists_passed_forward ht'
    refine yields_bind (yields_pure (hend (precedes_forward _) fun _ => ?_))
    rw [hcomments.between_eq]
    refine .comma hall ?_ (List.forall_mem_nil _)
    rw [← hcomma, ht']
    rfl
  · exact yields_then (yields_fieldsBehind_laid [] hcut (List.forall_mem_nil _)) fun fs e he hfs =>
      hend he fun herrors => .fields (hfs herrors)

/-! ### Variants -/

section Lists

variable {α : Type} {entry : Reader α} [Moves entry] {lists : α → List (List Field)}

/-- Entries hold what each of them holds. -/
theorem yields_entries_held
    (hentry : ∀ {c : Cursor}, c.IsCut → Yields entry c fun a c' => c.HoldsFields c' (lists a)) (sign : String)
    (hc : c.IsCut) : Yields (entries sign entry n) c fun found c' => c.HoldsFields c' (found.flatMap lists) := by
  induction n generalizing c with
  | zero => exact yields_failure
  | succ n ih =>
    unfold entries
    refine yields_bind (yields_closes fun _ => yields_if (fun _ => yields_pure (Precedes.refl c).holdsNone) fun _ => ?_)
    refine yields_then (hentry hc) fun a d hd hfirst => yields_past fun comma e he => ?_
    have hfirst := hfirst.before he
    refine yields_if (fun _ => ?_) fun _ => yields_pure (by simpa using hfirst)
    refine yields_then (ih ((hc.of_precedes hd).of_precedes he)) fun more c' _ hmore => yields_pure ?_
    rw [List.flatMap_cons]
    exact hfirst.trans hmore

theorem yields_list_held
    (hentry : ∀ {c : Cursor}, c.IsCut → Yields entry c fun a c' => c.HoldsFields c' (lists a)) (sign : String)
    (hc : c.IsCut) : Yields (list sign n entry) c fun found c' => c.HoldsFields c' (found.flatMap lists) := by
  unfold list
  refine yields_past fun comma d hd => ?_
  have hend : ∀ {found : List α} {e : Cursor}, d.HoldsFields e (found.flatMap lists) →
      Yields (close sign >>= fun _ => pure found) e fun found c' => c.HoldsFields c' (found.flatMap lists) :=
    fun hfound => yields_past fun _ _ hc' => yields_pure (.past hd (hfound.before hc'))
  refine yields_if (fun _ => yields_bind (yields_pure (hend (Precedes.refl d).holdsNone))) fun _ => ?_
  exact yields_then (yields_entries_held hentry sign (hc.of_precedes hd)) fun _ _ _ hfound => hend hfound

end Lists

/-- Fields without names are in no list. -/
theorem yields_tupleFields_held :
    Yields (tupleFields n) c fun fields c' => c.HoldsFields c' fields.lists := by
  unfold tupleFields
  refine yields_past fun _ d hd => yields_past fun comma e he => ?_
  have hend : ∀ {types : List TypeExpr} {f : Cursor}, c.Precedes f →
      Yields (expect ")" >>= fun _ => pure (Fields.tuple types)) f fun fields c' => c.HoldsFields c' fields.lists :=
    fun hf => yields_past fun _ _ hc' => yields_pure (hf.trans hc').holdsNone
  refine yields_if (fun _ => yields_bind (yields_pure (hend (hd.trans he)))) fun _ => ?_
  exact yields_past fun _ _ hf => hend ((hd.trans he).trans hf)

theorem yields_variant_held (hc : c.IsCut) :
    Yields (variant n) c fun v c' => c.HoldsFields c' v.fields.lists := by
  unfold variant
  refine yields_past fun _ d hd => yields_past fun _ e he => yields_past fun name f hf => ?_
  have hcf := (hd.trans he).trans hf
  have hend : ∀ {fields : Fields} {g : Cursor}, c.HoldsFields g fields.lists → Yields (do
      if ← optional "=" then expression n true
      return (⟨name, fields⟩ : Variant)) g fun v c' => c.HoldsFields c' v.fields.lists := fun hfields =>
    yields_past fun _ _ hk => yields_if
      (fun _ => yields_past fun _ _ hc' => yields_pure (hfields.before (hk.trans hc')))
      fun _ => yields_pure (hfields.before hk)
  refine yields_bind (yields_text ?_)
  refine yields_if (fun _ => ?_) fun _ => yields_if (fun _ => ?_) fun _ => ?_
  · exact yields_then (yields_namedFields_held (hc.of_precedes hcf).isCutBehind) fun _ _ _ h => hend (.past hcf h)
  · exact yields_then yields_tupleFields_held fun _ _ _ h => hend (.past hcf h)
  · exact yields_bind (yields_pure (hend hcf.holdsNone))

theorem yields_variants_held (hc : c.IsCutBehind) : Yields (variants n) c fun (found : List Variant) c' =>
    c.HoldsFields c' (found.flatMap fun v => v.fields.lists) := by
  unfold variants
  refine yields_bind (yields_expect fun hopening => ?_)
  obtain ⟨opening, ht⟩ := exists_ahead?_of_textOf (by decide) hopening
  exact (yields_list_held yields_variant_held closeBrace (hc.forward ht)).imp fun _ _ h =>
    .past c.precedes_forward h

/-! ### Statements -/

theorem yields_struct_held (hc : c.IsCutBehind) :
    Yields (struct n h) c fun s c' => c.HoldsFields c' s.fieldLists := by
  unfold struct
  refine yields_past fun _ d hd => yields_past fun name e he => yields_past fun generics f hf => ?_
  have hcf := (hd.trans he).trans hf
  have hcut := hc.of_precedes hcf
  have hend : ∀ {fields : Fields} {g : Cursor}, c.HoldsFields g fields.lists →
      Yields (pure (h.item name generics (.struct fields)) : Reader Statement) g fun s c' =>
        c.HoldsFields c' s.fieldLists := fun hfields => yields_pure hfields
  refine yields_bind (yields_text ?_)
  refine yields_if (fun _ => ?_) fun _ => yields_if (fun _ => ?_) fun _ => ?_
  · exact yields_then yields_tupleFields_held fun _ _ _ hfields => yields_past fun _ _ hk =>
      yields_past fun _ _ hc' => yields_bind (yields_pure (hend (.past hcf (hfields.before (hk.trans hc')))))
  · exact yields_past fun _ _ hg => yields_then (yields_namedFields_held (hcut.of_precedes hg)) fun _ _ _ hfields =>
      hend (.past (hcf.trans hg) hfields)
  · exact yields_past fun _ _ hg => yields_bind (yields_pure (hend (hcf.trans hg).holdsNone))

theorem yields_enum_held (hc : c.IsCutBehind) : Yields (enum n h) c fun s c' => c.HoldsFields c' s.fieldLists := by
  unfold enum
  refine yields_past fun _ d hd => yields_past fun name e he => yields_past fun generics f hf =>
    yields_past fun _ g hg => ?_
  have hcg := ((hd.trans he).trans hf).trans hg
  exact yields_then (yields_variants_held (hc.of_precedes hcg)) fun _ _ _ hfound => yields_pure (.past hcg hfound)

/-- No other declaration has named fields. -/
theorem gives_no_fieldLists {m : Reader Statement} (hm : m ∈ declarationReaders n h) :
    m = struct n h ∨ m = enum n h ∨ Gives m fun s => s.fieldLists = [] := by
  simp only [declarationReaders, List.mem_cons, List.not_mem_nil, or_false] at hm
  rcases hm with rfl | rfl | rfl | rfl | rfl | rfl | rfl | rfl | rfl | rfl | rfl | rfl | rfl
  case inr.inr.inr.inr.inr.inr.inl => exact .inl rfl
  case inr.inr.inr.inr.inr.inr.inr.inl => exact .inr (.inl rfl)
  all_goals
    refine .inr (.inr ?_)
    first
      | unfold function | unfold macroRules | unfold useDeclaration | unfold constant | unfold static
      | unfold typeAlias | unfold union | unfold externCrate | unfold foreignBlock
      | cases n <;> [exact gives_failure; first | unfold moduleItem | unfold traitItem]
    repeat' first
      | with_reducible exact gives_failure
      | with_reducible refine gives_of_forall fun _ => ?_
      | with_reducible refine gives_pure ?_
      | split
    all_goals rfl

/-- Nor has a statement that no keyword of a declaration begins. -/
theorem gives_no_fieldLists_other {line : Nat} {m : Reader Statement} (hm : m ∈ otherStatementReaders n line) :
    Gives m fun s => s.fieldLists = [] :=
  gives_of_mem_otherStatementReaders (P := fun s => s.fieldLists = []) (fun _ => rfl) rfl hm

/-- **The named fields of a statement** stand in it. -/
theorem IsStatement.holdsFields {c' : Cursor} {s : Statement} (hread : IsStatement n c s c') (hc : c.IsCutBehind) :
    c.HoldsFields c' s.fieldLists := by
  cases hread with
  | innerAttribute hrun => exact (Moves.precedes hrun).holdsNone
  | outerAttribute hrun => exact (Moves.precedes hrun).holdsNone
  | mark ht => exact c.precedes_forward.holdsNone
  | @declaration isPublic d _ _ hvisibility hrun =>
    have hd := Moves.precedes hvisibility
    cases n with
    | zero => exact absurd (show none = some _ from hrun) (by simp)
    | succ n =>
      have hmoves := Moves.precedes hrun
      obtain ⟨m, hm, hrun⟩ := (declaration?_cases _ _ hrun).1 s rfl
      refine .past hd ?_
      rcases gives_no_fieldLists hm with rfl | rfl | hgives
      · exact yields_struct_held (hc.of_precedes hd) _ _ hrun
      · exact yields_enum_held (hc.of_precedes hd) _ _ hrun
      · rw [hgives d _ hrun]
        exact hmoves.holdsNone
  | other hm hd hrun =>
    have hmoves := ((stops_of_mem_otherStatementReaders hm).stopsAt hrun).precedes
    rw [gives_no_fieldLists_other hm _ _ hrun]
    exact (hd.trans hmoves).holdsNone

end Reader

end Source

end ModelPool
