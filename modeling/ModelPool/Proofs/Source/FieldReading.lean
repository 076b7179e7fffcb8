import ModelPool.Proofs.Source.TypeReading
import ModelPool.Proofs.Text.Trimming
import ModelPool.Source.Statement

/-!
# Proofs/Source/FieldReading — documentation and fields are read back

A line of documentation is a comment that takes its line feed with it, so what stands behind it has only
its indentation before it.  Named fields are read one by one, each with the documentation before it; only
their lines in the source are not known.

* `documentation?_docText` — the documentation in a written line.
* `finds_namedFields` — the fields of a body.
-/

namespace ModelPool

/-- What is known of a field besides its place. -/
def Field.content (f : Field) : String × TypeExpr × List String := (f.name, f.type, f.docs)

namespace Source

open Lexeme TypeExpr Reader Text

/-! ## Lines of documentation -/

/-- **A line that may document something**: it has no line feed, and no blank at its end. -/
def IsDocLine (line : String) : Prop := '\n' ∉ line.toList ∧ trimEnd line.toList = line.toList

instance (line : String) : Decidable (IsDocLine line) := inferInstanceAs (Decidable (_ ∧ _))

/-- The comment with a line of documentation. -/
def docText (line : String) : String :=
  "///" ++ (if line.isEmpty then "" else " " ++ line) ++ "\n"

/-- The lexeme of a line of documentation. -/
def Lexeme.doc (space : List Char) (line : String) : Lexeme := ⟨.comment, space, docText line⟩

/-- The lexemes of documentation; behind the first one only the indentation stands before each. -/
def docLexemes (space indent : List Char) : List String → List Lexeme
  | [] => []
  | line :: r => doc space line :: docLexemes indent indent r

/-- The blank text before what follows documentation. -/
def behindDocs (space indent : List Char) (docs : List String) : List Char :=
  if docs.isEmpty then space else indent

theorem toList_docText (line : String) : (docText line).toList = '/' :: '/' :: '/' ::
    (if line.isEmpty then [] else ' ' :: line.toList) ++ ['\n'] := by
  unfold docText
  split <;> simp

theorem print_docLexemes (pre indent : List Char) (docs : List String) :
    print (docLexemes (pre ++ indent) indent docs) ++ behindDocs (pre ++ indent) indent docs =
      pre ++ docs.flatMap (fun line => indent ++ (docText line).toList) ++ indent := by
  induction docs generalizing pre with
  | nil => simp [docLexemes, behindDocs]
  | cons line r ih =>
    have hrest := ih []
    have hbehind : behindDocs indent indent r = indent := by
      unfold behindDocs
      split <;> rfl
    simp only [List.nil_append, hbehind] at hrest
    have hfirst : behindDocs (pre ++ indent) indent (line :: r) = indent := rfl
    rw [docLexemes, print_cons, hfirst, List.append_assoc, hrest]
    simp [doc]

theorem legible_docLexemes {space indent : List Char} {docs : List String} (hspace : space.all isSpace = true)
    (hindent : indent.all isSpace = true) (hdocs : ∀ line ∈ docs, IsDocLine line) (rest : List Char) :
    Legible (docLexemes space indent docs) rest := by
  induction docs generalizing space with
  | nil => exact trivial
  | cons line r ih =>
    obtain ⟨hline, hr⟩ := List.forall_mem_cons.1 hdocs
    refine ⟨?_, ih hindent hr⟩
    have hbefore := @before_documentation space (if line.isEmpty then [] else ' ' :: line.toList) hspace
      (by split <;> simp [hline.1]) (by split <;> simp) (print (docLexemes indent indent r) ++ rest)
    rwa [← toList_docText, String.ofList_toList] at hbefore

/-- **A written line documents** what it was written for. -/
theorem documentation?_docText {line : String} (h : IsDocLine line) :
    documentation? (docText line) = some line := by
  have htrim : trimEnd (docText line).toList =
      '/' :: '/' :: '/' :: (if line.isEmpty then [] else ' ' :: line.toList) := by
    rw [toList_docText, trimEnd_append_blanks _ (List.forall_mem_singleton.2 (by decide))]
    by_cases hline : line = ""
    · subst hline
      decide
    · have hne : line.toList ≠ [] := by simpa using hline
      simpa [hline] using trimEnd_append h.2 hne ['/', '/', '/', ' ']
  unfold documentation?
  rw [htrim]
  by_cases hline : line = ""
  · subst hline
    rfl
  · simp [hline]

theorem filterMap_docLexemes {space indent : List Char} {docs : List String}
    (hdocs : ∀ line ∈ docs, IsDocLine line) :
    (docLexemes space indent docs).filterMap (fun l => documentation? l.text) = docs := by
  induction docs generalizing space with
  | nil => rfl
  | cons line r ih =>
    obtain ⟨hline, hr⟩ := List.forall_mem_cons.1 hdocs
    have hfirst : documentation? (doc space line).text = some line := documentation?_docText hline
    rw [docLexemes, List.filterMap_cons, hfirst]
    exact congrArg (line :: ·) (ih hr)

theorem isComment_docLexemes {space indent : List Char} {docs : List String} :
    ∀ l ∈ docLexemes space indent docs, l.isComment = true := by
  induction docs generalizing space with
  | nil => simp [docLexemes]
  | cons line r ih =>
    rw [docLexemes]
    exact List.forall_mem_cons.2 ⟨rfl, ih⟩

/-! ## Comments ahead -/

section Reading

variable {N n : Nat} {ls ls' r : List Lexeme} {l : Lexeme} {space indent : List Char} {t : TypeExpr}
  {docs : List String} {name : String}

theorem visible_append {comments : List Lexeme} (h : ∀ l ∈ comments, l.isComment = true)
    (ls : List Lexeme) : visible (comments ++ ls) = visible ls :=
  List.dropWhile_append_of_pos h

/-- The comments ahead are passed over, and the documentation in them is found. -/
theorem reads_docsAhead {comments : List Lexeme} (hcomments : ∀ l ∈ comments, l.isComment = true)
    (hl : l.isComment = false) :
    Reads N docsAhead (comments ++ l :: r) (comments.filterMap fun k => documentation? k.text)
      (l :: r) := by
  intro c hN hc
  have htake : (c.rest.takeWhile Token.isComment).map Token.bare = comments := by
    have hmap : (c.lexemes).takeWhile Lexeme.isComment = comments := by
      rw [hc, List.takeWhile_append_of_pos hcomments, List.takeWhile_cons_of_neg (by simp [hl]),
        List.append_nil]
    rw [← hmap, Cursor.lexemes, List.takeWhile_map]
    rfl
  refine ⟨c.passComments, ?_, c.total_passComments.trans hN, ?_, c.errors_passComments⟩
  · have hdocs : (c.rest.takeWhile Token.isComment).filterMap (fun t => documentation? t.text) =
        comments.filterMap fun k => documentation? k.text := by
      rw [← htake, List.filterMap_map]
      rfl
    rw [← hdocs]
    rfl
  · rw [c.lexemes_passComments, hc, visible_append hcomments, visible_cons hl]

/-- The documentation ahead is read. -/
theorem reads_docsAhead_docs (hdocs : ∀ line ∈ docs, IsDocLine line) (hl : l.isComment = false) :
    Reads N docsAhead (docLexemes space indent docs ++ l :: r) docs (l :: r) := by
  have hread := @reads_docsAhead N r l (docLexemes space indent docs) isComment_docLexemes hl
  rwa [filterMap_docLexemes hdocs] at hread

/-- No documentation is ahead. -/
theorem reads_docsAhead_nil (hl : l.isComment = false) : Reads N docsAhead (l :: r) [] (l :: r) :=
  @reads_docsAhead_docs N r l [] [] [] (by simp) hl

theorem reads_docsAmongAttributes_nil (hl : l.isComment = false) (htext : l.text ≠ "#") :
    Reads N (docsAmongAttributes (n + 1)) (l :: r) [] (l :: r) := by
  unfold docsAmongAttributes
  refine reads_bind (reads_docsAhead_nil hl) (reads_bind (reads_text (visible_cons hl r)) ?_)
  exact reads_if_not (by simpa using htext) reads_pure

/-! ## Named fields -/

/-- The word `pub` without a scope behind it is a visibility. -/
theorem reads_visibility_pub (hls : visible ls = ofName space "pub" :: l :: r) (hl : l.isComment = false)
    (htext : l.text ≠ "(") : Reads N (visibility n) ls true (l :: r) := by
  have hscope : Refuses (visibilityScope n) (l :: r) :=
    refuses_bind (refuses_expect (visible_cons hl r) htext)
  unfold visibility
  refine reads_bind (reads_textPair hls) (reads_if rfl (reads_bind (reads_skip hls) ?_))
  exact reads_bind (reads_orElse_of_refuses hscope reads_pure) reads_pure

theorem ne_of_isWord {s : String} (hname : isWord name.toList = true) (hs : isWord s.toList = false) :
    name ≠ s := by
  rintro rfl
  exact absurd (hs.symm.trans hname) (by decide)

/-- A public field is read with the documentation found before it. -/
theorem finds_namedField (hname : isWord name.toList = true) (ht : t.isStructured = true)
    (hn : 8 * lexemeCount t < n) (hstops : Stops ls) :
    Finds N (namedField n docs)
      (ofName space "pub" :: ofName [' '] name :: sign [] ':' :: (typeLexemes [' '] t ++ ls))
      (fun f => f.content = (name, t, docs)) ls := by
  obtain ⟨n, rfl⟩ := Nat.exists_eq_add_one_of_ne_zero (Nat.ne_zero_of_lt hn)
  have hvisibility : Reads N (visibility (n + 1))
      (ofName space "pub" :: ofName [' '] name :: sign [] ':' :: (typeLexemes [' '] t ++ ls)) true _ :=
    reads_visibility_pub rfl rfl (ne_of_isWord hname (by decide))
  unfold namedField
  refine finds_line fun line => finds_of_reads hvisibility (finds_of_reads (reads_word rfl rfl) ?_)
  refine finds_of_reads (reads_expect rfl rfl) (finds_of_reads ?_ (finds_pure rfl))
  have hreadable := isReadable_of_isStructured ht
  exact (readsBack hreadable).type hreadable (Nat.le_of_lt_succ hn) hstops

/-- The lexemes of a public field on lines of its own. -/
def fieldLexemes (indent : List Char) (f : String × TypeExpr × List String) : List Lexeme :=
  docLexemes ('\n' :: indent) indent f.2.2 ++ ofName (behindDocs ('\n' :: indent) indent f.2.2) "pub" ::
    ofName [' '] f.1 :: sign [] ':' :: (typeLexemes [' '] f.2.1 ++ [sign [] ','])

/-- **Fields that are read back.** -/
structure IsWritten (f : String × TypeExpr × List String) : Prop where
  name : isWord f.1.toList = true
  type : f.2.1.isStructured = true
  docs : ∀ line ∈ f.2.2, IsDocLine line

/-- **Named fields are found** up to the closing brace. -/
theorem finds_fieldsBehind {fs : List (String × TypeExpr × List String)}
    (hfs : ∀ f ∈ fs, IsWritten f) (hn : 8 * (fs.flatMap (fieldLexemes indent)).length < n) :
    Finds N (fieldsBehind n [])
      (fs.flatMap (fieldLexemes indent) ++ sign space '\x7d' :: ls)
      (fun gs => gs.map Field.content = fs) (sign space '\x7d' :: ls) := by
  induction fs generalizing n with
  | nil =>
    obtain ⟨n, rfl⟩ := Nat.exists_eq_add_one_of_ne_zero (Nat.ne_zero_of_lt hn)
    unfold fieldsBehind
    refine finds_of_reads (reads_docsAhead_nil rfl) (finds_of_reads (reads_closes rfl) ?_)
    exact finds_if (by simp; decide) (finds_pure rfl)
  | cons f fs ih =>
    obtain ⟨hf, hrest⟩ := List.forall_mem_cons.1 hfs
    obtain ⟨name, t, docs⟩ := f
    obtain ⟨hname, ht, hdocs⟩ := hf
    have hshape : ((name, t, docs) :: fs).flatMap (fieldLexemes indent) ++ sign space '\x7d' :: ls =
        docLexemes ('\n' :: indent) indent docs ++ ofName (behindDocs ('\n' :: indent) indent docs) "pub" ::
          ofName [' '] name :: sign [] ':' :: (typeLexemes [' '] t ++ sign [] ',' ::
            (fs.flatMap (fieldLexemes indent) ++ sign space '\x7d' :: ls)) := by
      simp [fieldLexemes]
    have hlength : ((name, t, docs) :: fs).flatMap (fieldLexemes indent) =
        fieldLexemes indent (name, t, docs) ++ fs.flatMap (fieldLexemes indent) := rfl
    rw [hlength, fieldLexemes] at hn
    simp only [List.length_append, List.length_cons, length_typeLexemes] at hn
    obtain ⟨n, rfl⟩ : ∃ k, n = k + 2 := ⟨n - 2, by omega⟩
    have hfield := @finds_namedField N (n + 1)
      (sign [] ',' :: (fs.flatMap (fieldLexemes indent) ++ sign space '\x7d' :: ls))
      (behindDocs ('\n' :: indent) indent docs) t docs name hname ht (by omega)
      (stops_sign (by decide) _)
    rw [hshape]
    unfold fieldsBehind
    refine finds_of_reads (reads_docsAhead_docs hdocs rfl) (finds_of_reads (reads_closes rfl) ?_)
    refine finds_if_not (by rw [text_ofName]; decide) ?_
    refine finds_of_reads (reads_docsAmongAttributes_nil rfl (by rw [text_ofName]; decide)) ?_
    rw [List.nil_append, List.append_nil]
    refine finds_bind hfield fun g hg => finds_of_reads (reads_docsAhead_nil rfl) ?_
    refine finds_of_reads (reads_optional rfl rfl) (finds_if rfl ?_)
    refine finds_bind (ih hrest (by omega)) fun gs hgs => finds_pure ?_
    rw [List.map_cons, hg, hgs]

end Reading

end Source

end ModelPool
