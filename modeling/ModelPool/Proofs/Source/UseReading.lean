import ModelPool.Proofs.Source.FieldReading
import ModelPool.Proofs.Source.UseTrees

/-!
# Proofs/Source/UseReading — `use` trees are read back

A tree that is written in words and signs is read back, whatever follows it, if that ends a tree: a comma, a
closing brace or a semicolon.

* `UseTree.Spells.reads` — a tree is read back.
-/

namespace ModelPool.Source

open Lexeme Reader

variable {N n : Nat} {ls ls' r : List Lexeme} {l : Lexeme} {path : List String}

/-! ## Words and signs -/

/-- **The lexeme is a word or a sign**, and opens no types. -/
structure Lexeme.IsPlain (l : Lexeme) : Prop where
  kind : l.IsWord ∨ l.kind = .punctuation ∧ isWord l.text.toList = false
  text : l.text ≠ "<"

instance : DecidablePred Lexeme.IsPlain := fun l =>
  decidable_of_iff ((l.IsWord ∨ l.kind = .punctuation ∧ isWord l.text.toList = false) ∧ l.text ≠ "<")
    ⟨fun h => ⟨h.1, h.2⟩, fun h => ⟨h.kind, h.text⟩⟩

namespace Lexeme.IsPlain

theorem isComment (h : l.IsPlain) : l.isComment = false := by
  rcases h.kind with hword | hsign
  · simp [Lexeme.isComment, hword.1]
  · simp [Lexeme.isComment, hsign.1]

theorem not_isOdd (h : l.IsPlain) : ¬ l.IsOdd := by
  rintro (htext | hvariable)
  · exact h.text htext
  · rcases h.kind with hword | hsign
    · exact absurd (hword.1.symm.trans hvariable) (by decide)
    · exact absurd (hsign.1.symm.trans hvariable) (by decide)

theorem visible_cons (h : l.IsPlain) (r : List Lexeme) : visible (l :: r) = l :: r :=
  Source.visible_cons h.isComment r

/-- What is not spelled like a word is a sign. -/
theorem isSign (h : l.IsPlain) {s : String} (hs : isWord s.toList = false) (htext : l.text = s) :
    l.kind = .punctuation := by
  refine (h.kind.resolve_left fun hword => ?_).1
  rw [← htext] at hs
  exact absurd (hs.symm.trans hword.2) (by decide)

/-- What is spelled like a word is one. -/
theorem isWord (h : l.IsPlain) {s : String} (hs : Source.isWord s.toList = true) (htext : l.text = s) :
    l.kind = .word := by
  refine (h.kind.resolve_right fun hsign => ?_).1
  rw [← htext] at hs
  exact absurd (hs.symm.trans hsign.2) (by decide)

end Lexeme.IsPlain

theorem Lexeme.IsWord.text_ne (h : l.IsWord) {s : String} (hs : isWord s.toList = false) : l.text ≠ s :=
  ne_of_isWord h.2 hs

theorem SpellsPath.isPath_of_plain {joint : List Lexeme} (h : SpellsPath path ls joint)
    (hplain : ∀ l ∈ ls, l.IsPlain) : IsPath path ls := h.isPath fun l hl => (hplain l hl).not_isOdd

theorem visible_of_plain (hplain : ∀ l ∈ ls, l.IsPlain) : visible ls = ls := by
  cases ls with
  | nil => rfl
  | cons l ls => exact (hplain l List.mem_cons_self).visible_cons ls

/-! ## Paths -/

/-- A path ends before these lexemes. -/
def EndsPath (ls : List Lexeme) : Prop :=
  ∃ l r, visible ls = l :: r ∧ (l.text = "::" → textAhead r = openBrace ∨ textAhead r = "*")

theorem reads_usePathRest_nil (h : EndsPath ls) : Reads N (usePathRest (n + 1)) ls () ls := by
  obtain ⟨l, r, hl, hcolons⟩ := h
  unfold usePathRest
  refine reads_bind (reads_textPair hl) (reads_if_not ?_ reads_pure)
  rw [Bool.not_eq_true, Bool.and_eq_false_iff, Bool.and_eq_false_iff]
  by_cases htext : l.text = "::"
  · rcases hcolons htext with hbrace | hstar
    · exact .inl (.inr (by simp [hbrace]))
    · exact .inr (by simp [hstar])
  · exact .inl (.inl (by simpa using htext))

theorem reads_usePathRest (h : IsTail path r) (hplain : ∀ l ∈ r, l.IsPlain) (hend : EndsPath ls)
    (hn : path.length < n) : Reads N (usePathRest n) (r ++ ls) () ls := by
  induction h generalizing n with
  | nil =>
    obtain ⟨n, rfl⟩ := Nat.exists_eq_succ_of_ne_zero (Nat.ne_of_gt hn)
    exact reads_usePathRest_nil hend
  | @cons colons word path r hcolons hword hr ih =>
    obtain ⟨n, rfl⟩ := Nat.exists_eq_succ_of_ne_zero (Nat.ne_of_gt (Nat.zero_lt_of_lt hn))
    obtain ⟨hcolonsPlain, hrest⟩ := List.forall_mem_cons.1 hplain
    obtain ⟨hwordPlain, hrest⟩ := List.forall_mem_cons.1 hrest
    have hvisible : visible (colons :: word :: (r ++ ls)) = _ := hcolonsPlain.visible_cons _
    have hvisible' : visible (word :: (r ++ ls)) = _ := hwordPlain.visible_cons _
    have hsecond : textAhead (word :: (r ++ ls)) = word.text := textAhead_of_visible hvisible'
    have hbrace : word.text ≠ openBrace := hword.text_ne (by decide)
    have hstar : word.text ≠ "*" := hword.text_ne (by decide)
    unfold usePathRest
    refine reads_bind (reads_textPair hvisible) (reads_if ?_ (reads_bind (reads_skip hvisible) ?_))
    · rw [hsecond]
      simp [hcolons, hbrace, hstar]
    · refine reads_if_not (by simpa [hsecond] using hwordPlain.text) ?_
      exact reads_bind (reads_word hvisible' hword.1) (ih hrest (Nat.lt_of_succ_lt_succ hn))

/-- **A path is read** up to what ends it; where there is no path, a sign has to end it. -/
theorem reads_usePath (h : IsPath path r) (hplain : ∀ l ∈ r, l.IsPlain) (hend : EndsPath ls)
    (hsign : path = [] → ∃ l q, visible ls = l :: q ∧ l.kind = .punctuation ∧ l.text ≠ "<")
    (hn : path.length < n) : Reads N (usePath n) (r ++ ls) () ls := by
  -- behind a sign other than an angle bracket the path goes on with its parts
  have hbehind : ∀ {l : Lexeme} {q : List Lexeme}, visible (r ++ ls) = l :: q → l.kind = .punctuation →
      l.text ≠ "<" → Reads N (usePathRest n) (r ++ ls) () ls → Reads N (usePath n) (r ++ ls) () ls := by
    intro l q hl hkind htext hrest
    unfold usePath
    refine reads_bind (reads_kind? hl) (reads_bind (reads_kind? hl) (reads_if_not (by simp [hkind]) ?_))
    exact reads_bind (reads_optional_of_ne hl htext) (reads_if_not (by decide) hrest)
  cases h with
  | @first word path r hword hr =>
    obtain ⟨hwordPlain, hrest⟩ := List.forall_mem_cons.1 hplain
    have hvisible : visible (word :: (r ++ ls)) = _ := hwordPlain.visible_cons _
    unfold usePath
    refine reads_bind (reads_kind? hvisible) (reads_bind (reads_kind? hvisible) (reads_if (by simp [hword.1]) ?_))
    exact reads_bind (reads_skip hvisible) (reads_usePathRest hr hrest hend (Nat.lt_of_succ_lt hn))
  | tail hr =>
    cases hr with
    | nil =>
      obtain ⟨l, q, hl, hkind, htext⟩ := hsign rfl
      exact hbehind hl hkind htext (reads_usePathRest .nil hplain hend hn)
    | @cons colons word path r hcolons hword hr =>
      have hcolonsPlain := hplain colons List.mem_cons_self
      exact hbehind (hcolonsPlain.visible_cons _) (hcolonsPlain.isSign (by decide) hcolons) hcolonsPlain.text
        (reads_usePathRest (.cons hcolons hword hr) hplain hend hn)

/-! ## Trees -/

/-- A tree ends before these lexemes. -/
def EndsTree (ls : List Lexeme) : Prop :=
  ∃ l r, visible ls = l :: r ∧ (l.text = "," ∨ l.text = closeBrace ∨ l.text = ";")

theorem EndsTree.text_ne {s : String} (hs : s ∉ [",", closeBrace, ";"]) {r : List Lexeme} (h : EndsTree ls)
    (hl : visible ls = l :: r) : l.text ≠ s := by
  obtain ⟨k, q, hk, htext⟩ := h
  obtain ⟨rfl, -⟩ := List.cons.inj (hl.symm.trans hk)
  rintro rfl
  exact hs (by simpa using htext)

/-- What is read behind the path of a tree. -/
def treeBehind (n : Nat) (start : Cursor) (path : List String) : Reader UseTree := do
  let (ahead, second) ← textPair
  let joins := ahead == "::"
  if joins && second == "*" || path.isEmpty && ahead == "*" then
    if joins then skip
    skip
    let whole ← since start
    return .glob (splitPath (String.ofList whole.toList.dropLast))
  else if joins && second == openBrace || path.isEmpty && ahead == openBrace then
    if joins then skip
    skip
    return .list path (← list closeBrace n (useTree n))
  else if path.isEmpty then failure
  else if ← optional "as" then return .renamed path (← word)
  else return .name path

/-- **A tree begins with its path.** -/
theorem reads_useTree {t : UseTree} (hpath : IsPath path ls) (hplain : ∀ l ∈ ls, l.IsPlain) (hls : AreSpaced ls)
    (hend : EndsPath r) (hsign : path = [] → ∃ l q, visible r = l :: q ∧ l.kind = .punctuation ∧ l.text ≠ "<")
    (hn : path.length < n) (hrest : ∀ start : Cursor, start.total = N → start.lexemes = ls ++ r →
      Reads N (treeBehind n start path) r t ls') : Reads N (useTree (n + 1)) (ls ++ r) t ls' := by
  unfold useTree
  refine reads_get fun start hN hstart => ?_
  refine reads_bind (reads_usePath hpath hplain hend hsign hn) (reads_bind (reads_since hN hstart) ?_)
  rw [visible_of_plain hplain, hpath.splitPath_eq hls]
  exact hrest start hN hstart

theorem reads_name (hne : path ≠ []) (hend : EndsTree ls) (start : Cursor) :
    Reads N (treeBehind n start path) ls (.name path) ls := by
  obtain ⟨l, r, hl, -⟩ := id hend
  have hcolons := hend.text_ne (s := "::") (by decide) hl
  unfold treeBehind
  refine reads_bind (reads_textPair hl) (reads_if_not (by simp [hcolons, hne]) ?_)
  refine reads_if_not (by simp [hcolons, hne]) (reads_if_not (by simpa using hne) ?_)
  exact reads_bind (reads_optional_of_ne hl (hend.text_ne (by decide) hl)) (reads_if_not (by decide) reads_pure)

theorem reads_renamed {keyword newName : Lexeme} (hne : path ≠ []) (hkeyword : keyword.text = "as")
    (hplain : keyword.IsPlain) (hname : newName.IsWord) (hplain' : newName.IsPlain) (start : Cursor) :
    Reads N (treeBehind n start path) (keyword :: newName :: ls) (.renamed path newName.text) ls := by
  have hl := hplain.visible_cons (newName :: ls)
  unfold treeBehind
  refine reads_bind (reads_textPair hl) (reads_if_not (by simp [hkeyword]) ?_)
  refine reads_if_not (by rw [hkeyword]; simp [hne]) (reads_if_not (by simpa using hne) ?_)
  refine reads_bind (reads_optional hl hkeyword) (reads_if rfl ?_)
  exact reads_bind (reads_word (hplain'.visible_cons ls) hname.1) reads_pure

/-- **Colons before a sign** are passed over, and where there is no path they need not stand there. -/
theorem exists_reads_joint {joint : List Lexeme} {sign : Lexeme} {s : String} (hjoint : Joins path joint)
    (hplain : ∀ l ∈ joint, l.IsPlain) (hsign : sign.IsPlain) (htext : sign.text = s) (hs : s ≠ "::")
    (ls : List Lexeme) : ∃ l q, visible (joint ++ sign :: ls) = l :: q ∧
      (∀ s', s' ≠ "::" →
        ((l.text == "::" && textAhead q == s' || path.isEmpty && l.text == s') = true ↔ s = s')) ∧
      ∀ {rest : Reader UseTree} {t : UseTree} {ls' : List Lexeme}, Reads N rest (sign :: ls) t ls' →
        Reads N (if (l.text == "::") = true then skip >>= fun _ => rest else rest) (joint ++ sign :: ls) t ls' := by
  have hvisible := hsign.visible_cons ls
  rcases hjoint with ⟨colons, rfl, hcolons⟩ | ⟨rfl, rfl⟩
  · have hl : visible ([colons] ++ sign :: ls) = _ := (hplain colons (by simp)).visible_cons _
    refine ⟨colons, sign :: ls, hl, fun s' hs' => ?_, fun hrest => ?_⟩
    · rw [textAhead_of_visible hvisible, htext, hcolons]
      simp [hs'.symm]
    · exact reads_if (by simp [hcolons]) (reads_bind (reads_skip hl) hrest)
  · refine ⟨sign, ls, hvisible, fun s' hs' => ?_, fun hrest => reads_if_not (by simp [htext, hs]) hrest⟩
    simp [htext, hs]

theorem reads_glob {joint done : List Lexeme} {star : Lexeme} (hjoint : Joins path joint) (hpath : IsPath path done)
    (hplain : ∀ l ∈ done ++ (joint ++ [star]), l.IsPlain) (hspaced : AreSpaced (done ++ (joint ++ [star])))
    (hstar : star.text = "*") {start : Cursor} (hN : start.total = N)
    (hstart : start.lexemes = done ++ (joint ++ star :: ls)) :
    Reads N (treeBehind n start path) (joint ++ star :: ls) (.glob path) ls := by
  obtain ⟨hdone, hbehind⟩ := List.forall_mem_append.1 hplain
  obtain ⟨hjointPlain, hstarPlain⟩ := List.forall_mem_append.1 hbehind
  have hstarPlain := hstarPlain star (by simp)
  obtain ⟨l, q, hl, hahead, hreads⟩ := exists_reads_joint hjoint hjointPlain hstarPlain hstar (by decide) ls
  unfold treeBehind
  refine reads_bind (reads_textPair hl) (reads_if ((hahead "*" (by decide)).2 rfl) (hreads ?_))
  refine reads_bind (reads_skip (hstarPlain.visible_cons ls)) ?_
  have hstart : start.lexemes = (done ++ (joint ++ [star])) ++ ls := by simp [hstart]
  refine reads_bind (reads_since hN hstart) (reads_pure_of_eq ?_)
  rw [visible_of_plain hplain, String.toList_ofList, splitPath_star hpath hspaced hstar hjoint]

theorem reads_list {trees : List UseTree} {joint : List Lexeme} {opening : Lexeme} (hjoint : Joins path joint)
    (hplain : ∀ l ∈ joint, l.IsPlain) (hopening : opening.IsPlain) (hopen : opening.text = openBrace)
    (htrees : Reads N (list closeBrace n (useTree n)) ls trees ls') (start : Cursor) :
    Reads N (treeBehind n start path) (joint ++ opening :: ls) (.list path trees) ls' := by
  obtain ⟨l, q, hl, hahead, hreads⟩ := exists_reads_joint hjoint hplain hopening hopen (by decide) ls
  unfold treeBehind
  refine reads_bind (reads_textPair hl) (reads_if_not (fun h => ?_) ?_)
  · exact absurd ((hahead "*" (by decide)).1 h) (by decide)
  refine reads_if ((hahead openBrace (by decide)).2 rfl) (hreads ?_)
  exact reads_bind (reads_skip (hopening.visible_cons ls)) (reads_bind htrees reads_pure)

/-! ## Trees in lists -/

/-- The text of a lexeme that a tree may begin with. -/
def BeginsTree (l : Lexeme) : Prop := l.IsWord ∨ l.text = "::" ∨ l.text = "*" ∨ l.text = openBrace

theorem BeginsTree.text_ne {s : String} (hword : isWord s.toList = false) (hs : s ∉ ["::", "*", openBrace])
    (h : BeginsTree l) : l.text ≠ s := by
  rcases h with h | h | h | h
  · exact h.text_ne hword
  all_goals
    rintro rfl
    exact hs (by simp [h])

/-- A path begins a tree, unless it is none. -/
theorem IsPath.head (h : IsPath path ls) : path = [] ∧ ls = [] ∨ ∃ l q, ls = l :: q ∧ BeginsTree l := by
  cases h with
  | first hword _ => exact .inr ⟨_, _, rfl, .inl hword⟩
  | tail hr =>
    cases hr with
    | nil => exact .inl ⟨rfl, rfl⟩
    | cons hcolons _ _ => exact .inr ⟨_, _, rfl, .inr (.inl hcolons)⟩

theorem IsPath.head_joint {joint : List Lexeme} {sign : Lexeme} (h : IsPath path ls) (hjoint : Joins path joint)
    (hsign : BeginsTree sign) (r : List Lexeme) : ∃ l q, ls ++ (joint ++ sign :: r) = l :: q ∧ BeginsTree l := by
  rcases h.head with ⟨-, rfl⟩ | ⟨l, q, rfl, hl⟩
  · rcases hjoint with ⟨colons, rfl, hcolons⟩ | ⟨rfl, -⟩
    · exact ⟨colons, _, rfl, .inr (.inl hcolons)⟩
    · exact ⟨sign, r, rfl, hsign⟩
  · exact ⟨l, _, rfl, hl⟩

/-- **What a tree begins with.** -/
theorem UseTree.Spells.head {t : UseTree} (h : t.Spells ls) (hplain : ∀ l ∈ ls, l.IsPlain) :
    ∃ l q, ls = l :: q ∧ BeginsTree l := by
  cases h with
  | name hpath hne =>
    exact (hpath.isPath_of_plain hplain).head.resolve_left fun hnil => hne hnil.1
  | renamed hpath hne _ _ =>
    obtain ⟨l, q, rfl, hl⟩ := (hpath.isPath_of_plain (List.forall_mem_append.1 hplain).1).head.resolve_left
      fun hnil => hne hnil.1
    exact ⟨l, _, rfl, hl⟩
  | glob hpath hjoint hstar =>
    exact (hpath.isPath_of_plain (List.forall_mem_append.1 hplain).1).head_joint hjoint (.inr (.inr (.inl hstar))) _
  | list hpath hjoint hopen _ _ =>
    exact (hpath.isPath_of_plain (List.forall_mem_append.1 hplain).1).head_joint hjoint (.inr (.inr (.inr hopen))) _
  | comma hpath hjoint hopen _ _ =>
    exact (hpath.isPath_of_plain (List.forall_mem_append.1 hplain).1).head_joint hjoint (.inr (.inr (.inr hopen))) _

/-- No list ends before a tree. -/
theorem UseTree.Spells.reads_closes {t : UseTree} (h : t.Spells ls) (hplain : ∀ l ∈ ls, l.IsPlain)
    (r : List Lexeme) : Reads N (closes closeBrace) (ls ++ r) false (ls ++ r) := by
  obtain ⟨l, q, rfl, hl⟩ := h.head hplain
  have hl' := Reader.reads_closes (N := N) (s := closeBrace) ((hplain l List.mem_cons_self).visible_cons (q ++ r))
  rwa [beq_eq_false_iff_ne.2 (hl.text_ne (by decide) (by decide))] at hl'

theorem UseTree.SpellsAll.head {ts : List UseTree} (h : UseTree.SpellsAll ts ls) (hplain : ∀ l ∈ ls, l.IsPlain) :
    ls = [] ∨ ∃ l q, ls = l :: q ∧ BeginsTree l := by
  cases h with
  | nil => exact .inl rfl
  | last ht => exact .inr (ht.head hplain)
  | cons ht _ _ =>
    obtain ⟨l, q, rfl, hl⟩ := ht.head (List.forall_mem_append.1 hplain).1
    exact .inr ⟨l, _, rfl, hl⟩

theorem IsTail.length_le (h : IsTail path ls) : path.length ≤ ls.length := by
  induction h with
  | nil => exact Nat.le_refl _
  | cons _ _ _ ih =>
    rw [List.length_cons, List.length_cons, List.length_cons]
    omega

theorem IsPath.length_le (h : IsPath path ls) : path.length ≤ ls.length := by
  cases h with
  | first _ hr => exact Nat.succ_le_succ hr.length_le
  | tail hr => exact hr.length_le

theorem EndsTree.endsPath (h : EndsTree ls) : EndsPath ls := by
  obtain ⟨l, r, hl, -⟩ := id h
  exact ⟨l, r, hl, fun hcolons => absurd hcolons (h.text_ne (by decide) hl)⟩

/-- A path ends before a star or a brace. -/
theorem endsPath_joint {joint : List Lexeme} {sign : Lexeme} (hjoint : Joins path joint)
    (hplain : ∀ l ∈ joint, l.IsPlain) (hsign : sign.IsPlain) (htext : sign.text = "*" ∨ sign.text = openBrace)
    (r : List Lexeme) : EndsPath (joint ++ sign :: r) ∧
      ∃ l q, visible (joint ++ sign :: r) = l :: q ∧ l.kind = .punctuation ∧ l.text ≠ "<" := by
  have hvisible := hsign.visible_cons r
  have hkind : sign.kind = .punctuation :=
    htext.elim (hsign.isSign (by decide)) (hsign.isSign (by decide))
  rcases hjoint with ⟨colons, rfl, hcolons⟩ | ⟨rfl, -⟩
  · have hcolonsPlain := hplain colons (by simp)
    have hl : visible ([colons] ++ sign :: r) = colons :: sign :: r := hcolonsPlain.visible_cons _
    refine ⟨⟨_, _, hl, fun _ => ?_⟩, _, _, hl, hcolonsPlain.isSign (by decide) hcolons, hcolonsPlain.text⟩
    rw [textAhead_of_visible hvisible]
    exact htext.symm
  · refine ⟨⟨_, _, hvisible, fun hcolons => ?_⟩, _, _, hvisible, hkind, hsign.text⟩
    rcases htext with htext | htext <;> exact absurd (hcolons.symm.trans htext) (by decide)

/-! ## Reading back -/

section Closing

variable {closing : Lexeme} {trees : List UseTree}

/-- A tree is read behind its path and up to the brace or star, and by what follows. -/
theorem reads_joined {t : UseTree} {done joint : List Lexeme} {sign : Lexeme} (hpath : IsPath path done)
    (hjoint : Joins path joint) (hplain : ∀ l ∈ done ++ (joint ++ sign :: r), l.IsPlain)
    (hls : AreSpaced (done ++ (joint ++ sign :: r))) (htext : sign.text = "*" ∨ sign.text = openBrace)
    (hn : (done ++ (joint ++ sign :: r)).length < n)
    (hrest : ∀ start : Cursor, start.total = N → start.lexemes = done ++ (joint ++ sign :: (r ++ ls)) →
      Reads N (treeBehind n start path) (joint ++ sign :: (r ++ ls)) t ls) :
    Reads N (useTree (n + 1)) (done ++ (joint ++ sign :: r) ++ ls) t ls := by
  obtain ⟨hdone, hbehind⟩ := List.forall_mem_append.1 hplain
  obtain ⟨hjointPlain, hsign⟩ := List.forall_mem_append.1 hbehind
  obtain ⟨hend, hfirst⟩ := endsPath_joint hjoint hjointPlain (hsign sign List.mem_cons_self) htext (r ++ ls)
  have hlength := hpath.length_le
  rw [List.length_append] at hn
  have hshape : done ++ (joint ++ sign :: r) ++ ls = done ++ (joint ++ sign :: (r ++ ls)) := by simp
  rw [hshape]
  exact reads_useTree hpath hdone (areSpaced_append.1 hls).1 hend (fun _ => hfirst) (by omega) hrest

/-- A list is read by its trees. -/
theorem reads_list_of_entries {inner : List Lexeme} (htrees : UseTree.SpellsAll trees inner)
    (hplain : ∀ l ∈ inner, l.IsPlain) (hclosing : closing.IsPlain) (hclose : closing.text = closeBrace)
    (hentries : Reads N (Reader.entries closeBrace (useTree n) n) (inner ++ closing :: ls) trees (closing :: ls)) :
    Reads N (list closeBrace n (useTree n)) (inner ++ (closing :: ls)) trees ls := by
  obtain ⟨l, q, hl, htext⟩ : ∃ l q, visible (inner ++ closing :: ls) = l :: q ∧ l.text ≠ "," := by
    rcases htrees.head hplain with rfl | ⟨l, q, rfl, hl⟩
    · exact ⟨_, _, hclosing.visible_cons ls, by rw [hclose]; decide⟩
    · exact ⟨l, _, (hplain l List.mem_cons_self).visible_cons _, hl.text_ne (by decide) (by decide)⟩
  unfold list
  refine reads_bind (reads_optional_of_ne hl htext) (reads_if_not (by decide) (reads_bind hentries ?_))
  exact reads_bind (reads_close (hclosing.visible_cons ls) hclose) reads_pure

/-- A list with a lone comma is read as the empty one. -/
theorem reads_list_comma {comma : Lexeme} (hplain : comma.IsPlain) (hcomma : comma.text = ",")
    (hclosing : closing.IsPlain) (hclose : closing.text = closeBrace) :
    Reads N (list closeBrace n (useTree n)) (comma :: closing :: ls) [] ls := by
  unfold list
  refine reads_bind (reads_optional (hplain.visible_cons _) hcomma) (reads_if rfl (reads_bind reads_pure ?_))
  exact reads_bind (reads_close (hclosing.visible_cons ls) hclose) reads_pure

end Closing

mutual

/-- **A tree is read back**, whatever ends it. -/
theorem UseTree.Spells.reads {t : UseTree} {ls ls' : List Lexeme} {n : Nat} (h : t.Spells ls)
    (hplain : ∀ l ∈ ls, l.IsPlain) (hls : AreSpaced ls) (hend : EndsTree ls') (hn : ls.length + 1 < n) :
    Reads N (useTree n) (ls ++ ls') t ls' := by
  obtain ⟨n, rfl⟩ : ∃ k, n = k + 1 := ⟨n - 1, by omega⟩
  have hn : ls.length < n := Nat.lt_of_succ_lt_succ hn
  match h with
  | .name hpath hne =>
    have hpath := hpath.isPath_of_plain hplain
    have hlength := hpath.length_le
    exact reads_useTree hpath hplain hls hend.endsPath (fun hnil => absurd hnil hne) (by omega)
      fun start _ _ => reads_name hne hend start
  | .renamed hpath hne hkeyword hname =>
    rw [List.length_append] at hn
    obtain ⟨hpathPlain, hbehind⟩ := List.forall_mem_append.1 hplain
    obtain ⟨hkeywordPlain, hnamePlain⟩ := List.forall_mem_cons.1 hbehind
    have hpath := hpath.isPath_of_plain hpathPlain
    have hlength := hpath.length_le
    rw [List.append_assoc]
    refine reads_useTree hpath hpathPlain (areSpaced_append.1 hls).1 ⟨_, _, hkeywordPlain.visible_cons _, ?_⟩
      (fun hnil => absurd hnil hne) (by omega) fun start _ _ => ?_
    · rw [hkeyword]
      exact fun hcolons => absurd hcolons (by decide)
    · exact reads_renamed hne hkeyword hkeywordPlain hname (hnamePlain _ List.mem_cons_self) start
  | .glob hpath hjoint hstar =>
    have hpath := hpath.isPath_of_plain (List.forall_mem_append.1 hplain).1
    exact reads_joined hpath hjoint hplain hls (.inl hstar) hn fun start hN hstart =>
      reads_glob hjoint hpath hplain hls hstar hN hstart
  | @UseTree.Spells.list path trees done joint inner opening closing hpath hjoint hopen htrees hclose =>
    obtain ⟨hpathPlain, hbehind⟩ := List.forall_mem_append.1 hplain
    obtain ⟨hjointPlain, hbehind⟩ := List.forall_mem_append.1 hbehind
    obtain ⟨hopening, hbehind⟩ := List.forall_mem_cons.1 hbehind
    obtain ⟨hinner, hclosing⟩ := List.forall_mem_append.1 hbehind
    have hclosing := hclosing closing List.mem_cons_self
    have hinnerSpaced : AreSpaced inner := (areSpaced_append.1 (areSpaced_cons.1
      (areSpaced_append.1 (areSpaced_append.1 hls).2).2).2).1
    have hlength : inner.length + 1 < n := by
      simp only [List.length_append, List.length_cons] at hn
      omega
    refine reads_joined (hpath.isPath_of_plain hpathPlain) hjoint hplain hls (.inr hopen) hn fun start _ _ => ?_
    refine reads_list hjoint hjointPlain hopening hopen ?_ start
    rw [List.append_assoc]
    exact reads_list_of_entries htrees hinner hclosing hclose
      (htrees.reads hinner hinnerSpaced hclosing hclose (Nat.lt_of_succ_lt hlength) hlength)
  | @UseTree.Spells.comma path done joint opening comma closing hpath hjoint hopen hcomma hclose =>
    obtain ⟨hpathPlain, hbehind⟩ := List.forall_mem_append.1 hplain
    obtain ⟨hjointPlain, hbehind⟩ := List.forall_mem_append.1 hbehind
    obtain ⟨hopening, hbehind⟩ := List.forall_mem_cons.1 hbehind
    refine reads_joined (hpath.isPath_of_plain hpathPlain) hjoint hplain hls (.inr hopen) hn fun start _ _ => ?_
    exact reads_list hjoint hjointPlain hopening hopen
      (reads_list_comma (hbehind comma (by simp)) hcomma (hbehind closing (by simp)) hclose) start

/-- **Trees are read back** up to the brace that closes their list. -/
theorem UseTree.SpellsAll.reads {ts : List UseTree} {ls ls' : List Lexeme} {m n : Nat} {closing : Lexeme}
    (h : UseTree.SpellsAll ts ls) (hplain : ∀ l ∈ ls, l.IsPlain) (hls : AreSpaced ls)
    (hclosing : closing.IsPlain) (hclose : closing.text = closeBrace) (hm : ls.length < m) (hn : ls.length + 1 < n) :
    Reads N (Reader.entries closeBrace (useTree n) m) (ls ++ closing :: ls') ts (closing :: ls') := by
  obtain ⟨m, rfl⟩ : ∃ k, m = k + 1 := ⟨m - 1, by omega⟩
  have hvisible := hclosing.visible_cons ls'
  have hend : EndsTree (closing :: ls') := ⟨_, _, hvisible, .inr (.inl hclose)⟩
  match h with
  | .nil =>
    unfold Reader.entries
    exact reads_bind (reads_closes hvisible) (reads_if (by simp [hclose]) reads_pure)
  | .last ht =>
    unfold Reader.entries
    refine reads_bind (ht.reads_closes hplain _) (reads_if_not (by decide) ?_)
    refine reads_bind (ht.reads hplain hls hend hn) ?_
    exact reads_bind (reads_optional_of_ne hvisible (by rw [hclose]; decide)) (reads_if_not (by decide) reads_pure)
  | @UseTree.SpellsAll.cons t r first others comma ht hcomma hr =>
    obtain ⟨hfirst, hbehind⟩ := List.forall_mem_append.1 hplain
    obtain ⟨hcommaPlain, hothers⟩ := List.forall_mem_cons.1 hbehind
    obtain ⟨hfirstSpaced, hbehind⟩ := areSpaced_append.1 hls
    have hothersSpaced := (areSpaced_cons.1 hbehind).2
    rw [List.length_append, List.length_cons] at hm hn
    have hvisible := hcommaPlain.visible_cons (others ++ closing :: ls')
    have hcommaEnd : EndsTree (comma :: (others ++ closing :: ls')) := ⟨_, _, hvisible, .inl hcomma⟩
    rw [List.append_assoc]
    unfold Reader.entries
    refine reads_bind (ht.reads_closes hfirst _) (reads_if_not (by decide) ?_)
    refine reads_bind (ht.reads hfirst hfirstSpaced hcommaEnd (by omega)) ?_
    refine reads_bind (reads_optional hvisible hcomma) (reads_if rfl ?_)
    exact reads_bind (hr.reads hothers hothersSpaced hclosing hclose (by omega) (by omega)) reads_pure

end

end ModelPool.Source
