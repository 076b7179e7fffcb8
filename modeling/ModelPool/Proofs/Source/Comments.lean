import ModelPool.Source.Documentation
import ModelPool.Proofs.Source.Names
import ModelPool.Proofs.Source.Recutting
import ModelPool.Proofs.Text.Trimming

/-!
# Proofs/Source/Comments — which comments are documentation

    /// a      //// b      /** c */      /*** d */      /**/      /** e /* f */*/
    a          —           c             —              misread   misread

A comment is a line or a block.  By the rules of the language a line documents if it begins with three slashes and
no fourth, and a block if it begins with a slash and two stars and no third.  That is how comments are read, but
for two sorts of blocks: the empty one, whose closing mark overlaps the opening one, and those that end in two
closing marks, since both are taken off.

* `isComment_of_mem` — what the comments of a source look like.
* `documentation?_iff` — a comment is read by the rules exactly if it is not misread.
* `docsOf_filterMap` — so are the comments that stand in a row.
-/

namespace ModelPool

open Text

namespace Source

/-! ## The comments of a source -/

/-- **A comment is a line or a block.** -/
inductive IsComment : List Char → Prop where
  | line (r : List Char) : IsComment ('/' :: '/' :: r)
  | block (r : List Char) : IsComment ('/' :: '*' :: (r ++ ['*', '/']))

section Shape

variable {c : Char} {cs r : List Char} {p : Position} {t : Token} {depth n : Nat}

/-- The rest of a block comment ends in the mark that closes it. -/
theorem exists_take_of_blockCommentLength (h : blockCommentLength depth cs = some n) :
    ∃ r, cs.take n = r ++ ['*', '/'] := by
  have hbehind : ∀ (front : List Char) {cs : List Char} {m : Nat}, (∃ r, cs.take m = r ++ ['*', '/']) →
      ∃ r, (front ++ cs).take (m + front.length) = r ++ ['*', '/'] := by
    rintro front cs m ⟨r, hr⟩
    exact ⟨front ++ r, by rw [Nat.add_comm, List.take_length_add_append, hr, List.append_assoc]⟩
  fun_induction blockCommentLength depth cs generalizing n with
  | case1 => exact absurd h (by simp)
  | case2 r | case3 r =>
    obtain rfl := Option.some.inj h
    exact ⟨[], rfl⟩
  | case4 r d ih =>
    obtain ⟨m, hm, rfl⟩ := Option.map_eq_some_iff.1 h
    exact hbehind ['*', '/'] (ih hm)
  | case5 depth r ih =>
    obtain ⟨m, hm, rfl⟩ := Option.map_eq_some_iff.1 h
    exact hbehind ['/', '*'] (ih hm)
  | case6 depth d r _ _ ih =>
    obtain ⟨m, hm, rfl⟩ := Option.map_eq_some_iff.1 h
    exact hbehind [d] (ih hm)

theorem isComment_of_lexeme (h : lexeme c r = (.comment, n)) : IsComment (c :: r.take (n - 1)) := by
  obtain rfl := eq_slash_of_comment h
  unfold lexeme at h
  split at h
  · next q _ =>
    dsimp only at h
    split at h <;> obtain rfl := (Prod.mk.inj h).2 <;> exact .line _
  · next q _ =>
    cases hlength : blockCommentLength 1 q with
    | none => exact absurd h (by simp [closed, hlength])
    | some m =>
      obtain ⟨s, hs⟩ := exists_take_of_blockCommentLength hlength
      obtain rfl : 2 + m = n := by simpa [closed, hlength] using h
      have htake : ('*' :: q).take (2 + m - 1) = '*' :: (s ++ ['*', '/']) := by
        rw [show 2 + m - 1 = m + 1 by omega, List.take_succ_cons, hs]
      rw [htake]
      exact .block s
  -- a slash begins no text, no character and no variable
  · next heq => exact absurd heq (by decide)
  · next heq => exact absurd heq (by decide)
  · next heq => exact absurd heq (by decide)
  · rw [if_neg (by decide), if_neg (by decide)] at h
    split at h
    · exact absurd (Prod.mk.inj h).1 (by decide)
    · split at h <;> exact absurd (Prod.mk.inj h).1 (by decide)

theorem isComment_of_mem_tokensFrom (ht : t ∈ tokensFrom p cs) (hcomment : t.isComment = true) :
    IsComment t.text.toList := by
  obtain ⟨c, r, n, hlexeme, htext⟩ := exists_lexeme_of_mem ht
  rw [beq_iff_eq.1 hcomment] at hlexeme
  rw [htext]
  exact isComment_of_lexeme hlexeme

/-- **The comments of a source** are lines and blocks. -/
theorem isComment_of_mem (ht : t ∈ tokens cs) (hcomment : t.isComment = true) : IsComment t.text.toList := by
  unfold tokens at ht
  split at ht
  · exact absurd ht List.not_mem_nil
  · next c r =>
    split at ht
    · split at ht
      · exact absurd ht List.not_mem_nil
      · next u us hus =>
        -- the mark before the first token is no part of its text
        rcases List.mem_cons.1 ht with rfl | ht
        · exact isComment_of_mem_tokensFrom (t := u) (hus ▸ List.mem_cons_self) hcomment
        · exact isComment_of_mem_tokensFrom (hus ▸ List.mem_cons_of_mem u ht) hcomment
    · split at ht
      · rcases List.mem_cons.1 ht with rfl | ht
        · exact absurd hcomment (by simp [Token.isComment])
        · exact isComment_of_mem_tokensFrom ht hcomment
      · exact isComment_of_mem_tokensFrom ht hcomment

end Shape

/-! ## Documentation -/

/-- **The line that a comment holds** behind its mark: the blanks at its end do not belong to it, nor does one
space at its start. -/
def IsLineOf (r line : List Char) : Prop := trimEnd r = ' ' :: line ∨ trimEnd r = line ∧ line.head? ≠ some ' '

/-- **What a comment documents**, by the rules of the language: three slashes and no fourth begin a line of
documentation, and a slash and two stars, if no third star follows, a block of it. -/
inductive Documents : List Char → List Char → Prop where
  | line {r line : List Char} (hr : r.head? ≠ some '/') (hline : IsLineOf r line) :
      Documents ('/' :: '/' :: '/' :: r) line
  | block {c : Char} (hc : c ≠ '*') (r : List Char) :
      Documents ('/' :: '*' :: '*' :: c :: (r ++ ['*', '/'])) (trim (c :: r))

/-- **A comment that is misread**: the empty block, and a block of documentation that ends right behind a comment
inside of it. -/
inductive IsMisread : List Char → Prop where
  | empty : IsMisread ['/', '*', '*', '/']
  | nested {c : Char} (hc : c ≠ '*') (r : List Char) : IsMisread ('/' :: '*' :: '*' :: c :: (r ++ ['*', '/', '*', '/']))

section Documentation

variable {text : String} {line : String} {r : List Char} {c : Char}

/-- What a text begins with that is trimmed at its end. -/
theorem head?_trimEnd_of_slash : (trimEnd r).head? = some '/' ↔ r.head? = some '/' := by
  refine ⟨head?_trimEnd r '/', fun h => ?_⟩
  obtain ⟨q, rfl⟩ := List.head?_eq_some_iff.1 h
  rw [trimEnd_cons (by decide)]
  rfl

/-- Three slashes begin documentation, and four do not. -/
theorem documentation?_line (h : text.toList = '/' :: '/' :: '/' :: r) :
    documentation? text = some line ↔ r.head? ≠ some '/' ∧ IsLineOf r line.toList := by
  have htrim : trimEnd text.toList = '/' :: '/' :: '/' :: trimEnd r := by
    rw [h, trimEnd_cons (by decide), trimEnd_cons (by decide), trimEnd_cons (by decide)]
  have hread : ∀ cs, some (String.ofList cs) = some line ↔ cs = line.toList := fun cs => by
    rw [Option.some_inj, ← String.toList_inj, String.toList_ofList]
  rw [documentation?, htrim, Ne, ← head?_trimEnd_of_slash, IsLineOf]
  cases trimEnd r with
  | nil =>
    simp [hread]
    rintro rfl
    simp
  | cons d q =>
    by_cases hslash : d = '/'
    · simp [hslash]
    · by_cases hspace : d = ' '
      · simp [hspace, hread]
        exact fun hline hfirst => absurd (by rw [← hline]; rfl) hfirst
      · simp [hslash, hspace, hread, -String.ofList_cons]
        exact fun hline => by simp [← hline, hspace]

/-- Two slashes do not. -/
theorem documentation?_ordinary (h : text.toList = '/' :: '/' :: r) (hr : r.head? ≠ some '/') :
    documentation? text = none := by
  have htrim : trimEnd text.toList = '/' :: '/' :: trimEnd r := by
    rw [h, trimEnd_cons (by decide), trimEnd_cons (by decide)]
  rw [documentation?, htrim]
  cases hcases : trimEnd r with
  | nil => rfl
  | cons d q =>
    have hd : d ≠ '/' := fun hd => hr (head?_trimEnd_of_slash.1 (by rw [hcases, hd]; rfl))
    simp [hd]

/-- The text that is trimmed is all of a block comment. -/
theorem trimEnd_block (h : text.toList = '/' :: '*' :: (r ++ ['*', '/'])) : trimEnd text.toList = text.toList := by
  have hlast : text.toList = '/' :: '*' :: (r ++ ['*']) ++ ['/'] := by simp [h]
  rw [hlast, trimEnd_concat (by decide)]

/-- A slash and two stars begin a block of documentation, the closing marks of which are dropped. -/
theorem documentation?_block (h : text.toList = '/' :: '*' :: '*' :: c :: (r ++ ['*', '/'])) (hc : c ≠ '*') :
    documentation? text = some (String.ofList (trim (dropClosingMarks (c :: r).reverse).reverse)) := by
  have htrim := (trimEnd_block (r := '*' :: c :: r) (by simp [h])).trans h
  rw [documentation?, htrim]
  simp [hc, dropClosingMarks]

/-- Anything else behind the slash and the star begins none. -/
theorem documentation?_block_ordinary (h : text.toList = '/' :: '*' :: (r ++ ['*', '/'])) (hne : r ≠ [])
    (hr : ∀ c q, r = '*' :: c :: q → c = '*') : documentation? text = none := by
  have htrim := (trimEnd_block h).trans h
  obtain ⟨c, q, rfl⟩ := List.exists_cons_of_ne_nil hne
  rw [documentation?, htrim]
  by_cases hc : c = '*'
  · subst hc
    cases q with
    | nil => rfl
    | cons d q =>
      obtain rfl := hr d q rfl
      rfl
  · simp [hc]

/-- A line comment holds one line. -/
theorem IsLineOf.unique {l l' : List Char} (h : IsLineOf r l) (h' : IsLineOf r l') : l = l' := by
  have hspace : ∀ {l l' : List Char}, trimEnd r = ' ' :: l → trimEnd r = l' → l'.head? ≠ some ' ' → False :=
    fun h h' hfirst => hfirst (by rw [← h', h]; rfl)
  rcases h with h | ⟨h, hfirst⟩ <;> rcases h' with h' | ⟨h', hfirst'⟩
  · exact (List.cons.inj (h.symm.trans h')).2
  · exact (hspace h h' hfirst').elim
  · exact (hspace h' h hfirst).elim
  · exact h.symm.trans h'

/-- What the rules say of a block. -/
theorem documents_block_iff {cs l : List Char} : Documents ('/' :: '*' :: (cs ++ ['*', '/'])) l ↔
    ∃ c r, cs = '*' :: c :: r ∧ c ≠ '*' ∧ l = trim (c :: r) := by
  constructor
  · generalize hall : '/' :: '*' :: (cs ++ ['*', '/']) = all
    rintro (⟨-, -⟩ | ⟨hc, r⟩)
    · exact absurd hall (by simp)
    · next c =>
      have hcs : cs ++ ['*', '/'] = ('*' :: c :: r) ++ ['*', '/'] := (List.cons.inj (List.cons.inj hall).2).2
      exact ⟨c, r, List.append_cancel_right hcs, hc, rfl⟩
  · rintro ⟨c, r, rfl, hc, rfl⟩
    exact .block hc r

/-- **A comment documents one thing at most.** -/
theorem Documents.unique {cs l l' : List Char} (h : Documents cs l) (h' : Documents cs l') : l = l' := by
  cases h with
  | line _ hline =>
    cases h' with
    | line _ hline' => exact hline.unique hline'
  | @block c _ r =>
    obtain ⟨d, q, heq, -, rfl⟩ := (@documents_block_iff ('*' :: c :: r) _).1 h'
    rw [(List.cons.inj heq).2]

/-- What is left without closing marks is the start of the block. -/
theorem dropClosingMarks_suffix (cs : List Char) : dropClosingMarks cs <:+ cs := by
  fun_induction dropClosingMarks cs with
  | case1 r ih => exact ih.trans ⟨['/', '*'], rfl⟩
  | case2 cs _ => exact List.suffix_rfl

/-- A block that does not end in closing marks is left as it is. -/
theorem dropClosingMarks_of_not {cs : List Char} (h : ∀ r, cs ≠ r ++ ['*', '/']) :
    (dropClosingMarks cs.reverse).reverse = cs := by
  have hrest : dropClosingMarks cs.reverse = cs.reverse := by
    unfold dropClosingMarks
    split
    · next r heq => exact absurd (by rw [← List.reverse_reverse cs, heq]; simp) (h r.reverse)
    · rfl
  rw [hrest, List.reverse_reverse]

/-- The text of a block that ends in closing marks is cut short. -/
theorem dropClosingMarks_ne (r : List Char) :
    trim (dropClosingMarks (r ++ ['*', '/']).reverse).reverse ≠ trim (r ++ ['*', '/']) := by
  intro heq
  have hsub : (dropClosingMarks r.reverse).reverse.Sublist r := by
    have hsuffix := (dropClosingMarks_suffix r.reverse).sublist.reverse
    rwa [List.reverse_reverse] at hsuffix
  have hdrop : dropClosingMarks (r ++ ['*', '/']).reverse = dropClosingMarks r.reverse := by
    simp [dropClosingMarks]
  have hlength := congrArg List.length (congrArg squeeze heq)
  have hmarks : (squeeze ['*', '/']).length = 2 := by decide
  have hle := (hsub.filter fun c => !isBlank c).length_le
  rw [squeeze_trim, squeeze_trim, hdrop, squeeze_append, List.length_append, hmarks] at hlength
  simp only [squeeze] at hlength
  omega

/-- A block that is misread. -/
theorem isMisread_block_iff {cs : List Char} : IsMisread ('/' :: '*' :: (cs ++ ['*', '/'])) ↔
    cs = [] ∨ ∃ c r, cs = '*' :: c :: (r ++ ['*', '/']) ∧ c ≠ '*' := by
  constructor
  · generalize hall : '/' :: '*' :: (cs ++ ['*', '/']) = all
    rintro (- | ⟨hc, r⟩)
    · have hcs : cs ++ ['*', '/'] = [] ++ ['*', '/'] := (List.cons.inj (List.cons.inj hall).2).2
      exact .inl (List.append_cancel_right hcs)
    · next c =>
      have hcs : cs ++ ['*', '/'] = ('*' :: c :: (r ++ ['*', '/'])) ++ ['*', '/'] :=
        (List.cons.inj (List.cons.inj hall).2).2.trans (by simp)
      exact .inr ⟨c, r, List.append_cancel_right hcs, hc⟩
  · rintro (rfl | ⟨c, r, rfl, hc⟩)
    · exact .empty
    · simpa using IsMisread.nested hc r

theorem documentation?_line_iff (h : text.toList = '/' :: '/' :: r) :
    documentation? text = some line ↔ Documents text.toList line.toList := by
  rw [h]
  by_cases hr : r.head? = some '/'
  · obtain ⟨q, rfl⟩ := List.head?_eq_some_iff.1 hr
    rw [documentation?_line h]
    exact ⟨fun hline => .line hline.1 hline.2, fun hline => by cases hline with | line hq hline => exact ⟨hq, hline⟩⟩
  · rw [documentation?_ordinary h hr]
    refine ⟨fun hnone => absurd hnone (by simp), fun hline => ?_⟩
    cases hline with
    | line => exact absurd rfl hr

/-- A block is read by the rules unless it is misread. -/
theorem documentation?_block_iff {cs : List Char} (h : text.toList = '/' :: '*' :: (cs ++ ['*', '/']))
    (hread : ¬ IsMisread text.toList) : documentation? text = some line ↔ Documents text.toList line.toList := by
  rw [h, isMisread_block_iff, not_or] at hread
  rw [h, documents_block_iff]
  by_cases hblock : ∃ c r, cs = '*' :: c :: r ∧ c ≠ '*'
  · obtain ⟨c, r, rfl, hc⟩ := hblock
    have hmarks : ∀ q, c :: r ≠ q ++ ['*', '/'] := by
      intro q hq
      cases q with
      | nil => exact hc (List.cons.inj hq).1
      | cons d q =>
        obtain ⟨rfl, rfl⟩ := List.cons.inj hq
        exact hread.2 ⟨c, q, rfl, hc⟩
    rw [documentation?_block (by simpa using h) hc, dropClosingMarks_of_not hmarks, Option.some_inj, eq_comm,
      ← String.toList_inj, String.toList_ofList]
    constructor
    · exact fun hline => ⟨c, r, rfl, hc, hline⟩
    · rintro ⟨d, q, heq, -, hline⟩
      obtain ⟨rfl, rfl⟩ := List.cons.inj (List.cons.inj heq).2
      exact hline
  · rw [documentation?_block_ordinary h hread.1 fun c q hcs => by_contra fun hc => hblock ⟨c, q, hcs, hc⟩]
    refine ⟨fun hnone => absurd hnone (by simp), fun hline => ?_⟩
    obtain ⟨c, r, hcs, hc, -⟩ := hline
    exact absurd ⟨c, r, hcs, hc⟩ hblock

/-- **Documentation is read by the rules of the language**, but for the comments that are misread. -/
theorem documentation?_iff (h : IsComment text.toList) :
    (∀ line, documentation? text = some line ↔ Documents text.toList line.toList) ↔ ¬ IsMisread text.toList := by
  constructor
  · intro hread hmisread
    generalize htext : text.toList = cs at hmisread
    cases hmisread with
    | empty =>
      obtain rfl := String.toList_inj.1 (htext.trans (show "/**/".toList = _ from rfl).symm)
      have hslash := (hread "/").1 (by decide)
      rw [htext] at hslash
      obtain ⟨c, r, hnil, -⟩ := (@documents_block_iff [] _).1 hslash
      exact absurd hnil (by simp)
    | @nested c hc r =>
      have hblock : text.toList = '/' :: '*' :: '*' :: c :: ((r ++ ['*', '/']) ++ ['*', '/']) := by simp [htext]
      have hdocuments : Documents text.toList (trim (c :: (r ++ ['*', '/']))) := by
        rw [hblock]
        exact .block hc _
      have hsome := (hread (String.ofList (trim (c :: (r ++ ['*', '/']))))).2 (by rwa [String.toList_ofList])
      rw [documentation?_block hblock hc] at hsome
      exact dropClosingMarks_ne (c :: r) (String.ofList_injective (Option.some.inj hsome))
  · intro hread line
    obtain ⟨cs, htext⟩ : ∃ cs, text.toList = cs := ⟨_, rfl⟩
    rw [htext] at h
    cases h with
    | line r => exact documentation?_line_iff htext
    | block r => exact documentation?_block_iff htext hread

end Documentation

/-! ## Comments in a row -/

/-- **The lines that comments document**, one after the other; an ordinary comment documents none. -/
inductive DocsOf : List String → List String → Prop where
  | nil : DocsOf [] []
  | documentation {comment line : String} {comments lines : List String}
      (hline : Documents comment.toList line.toList) (h : DocsOf comments lines) :
      DocsOf (comment :: comments) (line :: lines)
  | ordinary {comment : String} {comments lines : List String} (hnone : ∀ line, ¬ Documents comment.toList line)
      (h : DocsOf comments lines) : DocsOf (comment :: comments) lines

section Row

variable {comments lines : List String} {comment : String}

/-- **Comments in a row are read by the rules**, if none of them is misread. -/
theorem docsOf_filterMap (hcomments : ∀ c ∈ comments, IsComment c.toList)
    (hread : ∀ c ∈ comments, ¬ IsMisread c.toList) : DocsOf comments (comments.filterMap documentation?) := by
  induction comments with
  | nil => exact .nil
  | cons c comments ih =>
    obtain ⟨hc, hcomments⟩ := List.forall_mem_cons.1 hcomments
    obtain ⟨hcread, hread⟩ := List.forall_mem_cons.1 hread
    have hiff := (documentation?_iff hc).2 hcread
    cases hdoc : documentation? c with
    | none =>
      rw [List.filterMap_cons_none hdoc]
      refine .ordinary (fun line hline => ?_) (ih hcomments hread)
      have hsome := (hiff (String.ofList line)).2 (by rwa [String.toList_ofList])
      exact absurd (hdoc.symm.trans hsome) (by simp)
    | some line =>
      rw [List.filterMap_cons_some hdoc]
      exact .documentation ((hiff line).1 hdoc) (ih hcomments hread)

/-- Comments in a row document the same lines always. -/
theorem DocsOf.unique {lines' : List String} (h : DocsOf comments lines) (h' : DocsOf comments lines') :
    lines = lines' := by
  induction h generalizing lines' with
  | nil => cases h'; rfl
  | documentation hline _ ih =>
    cases h' with
    | documentation hline' h' => rw [String.toList_inj.1 (hline.unique hline'), ih h']
    | ordinary hnone _ => exact absurd hline (hnone _)
  | ordinary hnone _ ih =>
    cases h' with
    | documentation hline' _ => exact absurd hline' (hnone _)
    | ordinary _ h' => exact ih h'

/-- An ordinary comment is read as one, unless it is misread. -/
theorem documentation?_of_ordinary (h : IsComment comment.toList) (hread : ¬ IsMisread comment.toList)
    (hnone : ∀ line, ¬ Documents comment.toList line) : documentation? comment = none :=
  Option.eq_none_iff_forall_ne_some.2 fun line hline =>
    hnone _ (((documentation?_iff h).2 hread line).1 hline)

end Row

end Source

end ModelPool
