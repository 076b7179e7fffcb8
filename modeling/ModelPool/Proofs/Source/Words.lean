import ModelPool.Segments
import ModelPool.Source.Token

/-!
# Proofs/Source/Words — words, and paths of words

The characters of a word are those that go on with an identifier, and the sign of a raw identifier among
them.  None of them is a blank or a colon, so a path of words comes apart into the words it was put
together from.

* `splitPath_pathText` — the segments of a path's text.
-/

namespace ModelPool

open Text

/-! ## Texts without blanks -/

namespace Text

theorem trimEnd_of_forall {cs : List Char} (h : ∀ c ∈ cs, isBlank c = false) : trimEnd cs = cs := by
  induction cs with
  | nil => rfl
  | cons c r ih =>
    obtain ⟨hc, hr⟩ := List.forall_mem_cons.1 h
    rw [trimEnd, ih hr]
    cases r with
    | nil => simp [hc]
    | cons d t => rfl

theorem trim_of_forall {cs : List Char} (h : ∀ c ∈ cs, isBlank c = false) : trim cs = cs := by
  have hstart : trimStart cs = cs := by
    cases cs with
    | nil => rfl
    | cons c r => simp [trimStart, h c List.mem_cons_self]
  rw [trim, hstart, trimEnd_of_forall h]

/-- **A text without blanks is trimmed.** -/
theorem trimmed_of_forall {s : String} (h : ∀ c ∈ s.toList, isBlank c = false) : trimmed s = s := by
  rw [trimmed, trim_of_forall h, String.ofList_toList]

theorem trimEnd_concat {c : Char} (hc : isBlank c = false) (cs : List Char) :
    trimEnd (cs ++ [c]) = cs ++ [c] := by
  induction cs with
  | nil => simp [trimEnd, hc]
  | cons d r ih =>
    rw [List.cons_append, trimEnd, ih]
    cases r <;> rfl

/-- **A text is trimmed if neither end of it is blank.** -/
theorem trim_of_ends {cs : List Char} (hfirst : ∀ c ∈ cs.head?, isBlank c = false)
    (hlast : ∀ c ∈ cs.getLast?, isBlank c = false) : trim cs = cs := by
  have hstart : trimStart cs = cs := by
    cases cs with
    | nil => rfl
    | cons c r => simp [trimStart, hfirst c rfl]
  rw [trim, hstart]
  rcases List.eq_nil_or_concat cs with rfl | ⟨init, last, rfl⟩
  · rfl
  · rw [List.concat_eq_append] at hlast ⊢
    exact trimEnd_concat (hlast last List.getLast?_concat) init

theorem squeeze_of_forall {cs : List Char} (h : ∀ c ∈ cs, isBlank c = false) : squeeze cs = cs :=
  List.filter_eq_self.2 fun c hc => by simp [h c hc]

/-- The code points between the blanks beyond ASCII, where the letters lie. -/
def blankGaps : List (Nat × Nat) :=
  [(0x3001, 0x10FFFF), (0xA1, 0x167F), (0x1681, 0x1FFF), (0x2060, 0x2FFF), (0x2030, 0x205E), (0x200B, 0x2027)]

/-- **The ranges of a table lie between the blanks.** -/
def LiesBetweenBlanks (table : List CodeRange) : Prop :=
  ∀ r ∈ table, ∃ gap ∈ blankGaps, gap.1 ≤ r.first ∧ r.last ≤ gap.2

instance (table : List CodeRange) : Decidable (LiesBetweenBlanks table) :=
  inferInstanceAs (Decidable (∀ r ∈ table, ∃ gap ∈ blankGaps, gap.1 ≤ r.first ∧ r.last ≤ gap.2))

theorem isBlank_of_inRanges {table : List CodeRange} {c : Char} (htable : LiesBetweenBlanks table)
    (h : inRanges table c = true) : isBlank c = false := by
  obtain ⟨r, hr, hholds⟩ := List.any_eq_true.1 h
  simp only [CodeRange.holds, Bool.and_eq_true, decide_eq_true_eq] at hholds
  obtain ⟨gap, hgap, hfirst, hlast⟩ := htable r hr
  have hcode : gap.1 ≤ c.toNat ∧ c.toNat ≤ gap.2 := by omega
  simp only [isBlank, Bool.or_eq_false_iff, Bool.and_eq_false_iff, decide_eq_false_iff_not,
    beq_eq_false_iff_ne]
  simp only [blankGaps, List.mem_cons, List.not_mem_nil, or_false] at hgap
  rcases hgap with rfl | rfl | rfl | rfl | rfl | rfl <;> omega

/-- **No blank goes on with an identifier.** -/
theorem isBlank_of_isIdentifierTail {c : Char} (h : isIdentifierTail c = true) :
    isBlank c = false := by
  by_cases hascii : c.toNat < 0x80
  · have hnone : ∀ n < 0x80, isIdentifierTail (Char.ofNat n) = true → isBlank (Char.ofNat n) = false := by
      decide +kernel
    have hc := hnone _ hascii
    rw [Char.ofNat_toNat] at hc
    exact hc h
  · rw [isIdentifierTail, if_neg hascii, Bool.or_eq_true] at h
    rcases h with h | h
    · exact isBlank_of_inRanges (by decide +kernel) h
    · exact isBlank_of_inRanges (by decide +kernel) h

end Text

/-! ## Words -/

namespace Source

theorem isIdentifierTail_of_isWordStart {c : Char} (h : isWordStart c = true) :
    isIdentifierTail c = true := by
  rcases Bool.or_eq_true_iff.1 h with h | h
  · obtain rfl := beq_iff_eq.1 h
    decide
  · exact isIdentifierTail_of_isIdentifierStart h

/-- **The characters of a word** go on with an identifier, or are the sign of a raw one. -/
theorem tail_or_hash_of_isWord {cs : List Char} (h : isWord cs = true) :
    ∀ c ∈ cs, isIdentifierTail c = true ∨ c = '#' := by
  have hrun : ∀ {c : Char} {r : List Char}, (isWordStart c && r.all isIdentifierTail) = true →
      ∀ d ∈ c :: r, isIdentifierTail d = true := by
    intro c r h
    obtain ⟨hc, hr⟩ := Bool.and_eq_true_iff.1 h
    exact List.forall_mem_cons.2 ⟨isIdentifierTail_of_isWordStart hc, List.all_eq_true.1 hr⟩
  unfold isWord at h
  split at h
  · exact List.forall_mem_cons.2 ⟨.inl (by decide), List.forall_mem_cons.2 ⟨.inr rfl,
      fun c hc => .inl (hrun h c hc)⟩⟩
  · exact fun c hc => .inl (hrun h c hc)
  · simp

section Word

variable {cs : List Char}

theorem ne_nil_of_isWord (h : isWord cs = true) : cs ≠ [] := by
  rintro rfl
  exact absurd h (by decide)

theorem isBlank_of_isWord (h : isWord cs = true) : ∀ c ∈ cs, isBlank c = false := by
  intro c hc
  rcases tail_or_hash_of_isWord h c hc with htail | rfl
  · exact isBlank_of_isIdentifierTail htail
  · decide

/-- A sign that is not in identifiers is in no word. -/
theorem not_mem_of_isWord (h : isWord cs = true) {c : Char} (hc : isIdentifierTail c = false)
    (hhash : c ≠ '#') : c ∉ cs := by
  intro hmem
  rcases tail_or_hash_of_isWord h c hmem with htail | rfl
  · exact absurd (hc.symm.trans htail) (by decide)
  · exact hhash rfl

end Word

/-! ## Plain words -/

theorem toNat_lt_of_isPlain {c : Char} (h : isPlain c = true) : c.toNat < 0x80 := by
  have hrange : ∀ {a b : UInt32}, a ≤ c.val ∧ c.val ≤ b → c.toNat ≤ b.toNat :=
    fun hc => UInt32.le_iff_toNat_le.1 hc.2
  have hcode : c.toNat ≤ 'z'.toNat := by
    simp only [isPlain, Char.isAlphanum, Bool.or_eq_true, beq_iff_eq] at h
    rcases h with (h | h) | rfl
    · rcases Bool.or_eq_true_iff.1 h with h | h
      · exact Nat.le_trans (hrange (b := 'Z'.val) (of_decide_eq_true h)) (by decide)
      · exact hrange (b := 'z'.val)
          ((Bool.and_eq_true_iff.1 h).imp of_decide_eq_true of_decide_eq_true)
    · exact Nat.le_trans (hrange (b := '9'.val)
        ((Bool.and_eq_true_iff.1 h).imp of_decide_eq_true of_decide_eq_true)) (by decide)
    · decide
  exact Nat.lt_of_le_of_lt hcode (by decide)

/-- A plain character goes on with an identifier. -/
theorem isIdentifierTail_of_isPlain {c : Char} (h : isPlain c = true) :
    isIdentifierTail c = true := by
  unfold isIdentifierTail
  rw [if_pos (toNat_lt_of_isPlain h)]
  exact h

/-- **Plain characters make a word**, unless they begin with a digit. -/
theorem isWord_of_isPlain {c : Char} {r : List Char} (hc : isPlain c = true)
    (hdigit : c.isDigit = false) (hr : ∀ d ∈ r, isPlain d = true) : isWord (c :: r) = true := by
  have hstart : isWordStart c = true := by
    unfold isWordStart isIdentifierStart
    rw [if_pos (toNat_lt_of_isPlain hc), Bool.or_comm]
    simpa [isPlain, Char.isAlphanum, hdigit] using hc
  unfold isWord
  split
  · next hcons =>
    obtain ⟨-, rfl⟩ := List.cons.inj hcons
    exact absurd (hr '#' List.mem_cons_self) (by decide)
  · next hcons =>
    obtain ⟨rfl, rfl⟩ := List.cons.inj hcons
    rw [hstart, List.all_eq_true.2 fun d hd => isIdentifierTail_of_isPlain (hr d hd)]
    rfl
  · next hnil => exact absurd hnil (by simp)

/-- **A directory's name makes a word.** -/
theorem isWord_sanitizedName (raw : String) : isWord (sanitizedName raw).toList = true := by
  have hplain : ∀ d ∈ raw.toList.map (fun c => if isPlain c then c else '_'), isPlain d = true := by
    intro d hd
    obtain ⟨c, -, rfl⟩ := List.mem_map.1 hd
    split
    · assumption
    · decide
  unfold sanitizedName
  split
  · decide
  · next c r heq =>
    rw [heq] at hplain
    obtain ⟨hc, hr⟩ := List.forall_mem_cons.1 hplain
    rw [String.toList_ofList]
    split
    · exact isWord_of_isPlain (by decide) (by decide) hplain
    · next hdigit => exact isWord_of_isPlain hc (by simpa using hdigit) hr

end Source

/-! ## Paths of words -/

open Source

theorem toList_pathText_cons (h : String) (r : List String) :
    (pathText (h :: r)).toList = h.toList ++ r.flatMap fun s => ':' :: ':' :: s.toList := by
  induction r generalizing h with
  | nil => simp [pathText]
  | cons s r ih =>
    have hrest := ih s
    simp only [pathText] at hrest ⊢
    rw [String.intercalate_cons_cons]
    simp [hrest]

theorem splitColons_of_not_mem {cs : List Char} (h : ':' ∉ cs) : splitColons cs = [cs] := by
  induction cs with
  | nil => rfl
  | cons c r ih =>
    obtain ⟨hc, hr⟩ := not_or.1 (mt List.mem_cons.2 h)
    rw [splitColons, ih hr]
    rintro s rfl
    exact absurd rfl hc

theorem splitColons_pathText {h : String} {r : List String} (hwords : ∀ s ∈ h :: r, ':' ∉ s.toList) :
    splitColons (pathText (h :: r)).toList = (h :: r).map String.toList := by
  induction r generalizing h with
  | nil =>
    rw [toList_pathText_cons]
    simpa using splitColons_of_not_mem (hwords h List.mem_cons_self)
  | cons s r ih =>
    obtain ⟨hh, hrest⟩ := List.forall_mem_cons.1 hwords
    have htail : (pathText (h :: s :: r)).toList =
        h.toList ++ ':' :: ':' :: (pathText (s :: r)).toList := by
      rw [toList_pathText_cons, toList_pathText_cons]
      rfl
    rw [htail, splitColons_append hh, ih hrest]
    rfl

/-- **What is cut at every `::` can be joined again.** -/
theorem pathText_splitColons (s : String) : pathText ((splitColons s.toList).map String.ofList) = s := by
  have hjoin : ∀ cs : List Char,
      (pathText ((splitColons cs).map String.ofList)).toList = cs := by
    intro cs
    fun_induction splitColons cs with
    | case1 => rfl
    | case2 r ih =>
      cases hparts : splitColons r with
      | nil => exact absurd hparts (splitColons_ne_nil r)
      | cons part parts =>
        rw [hparts] at ih
        rw [List.map_cons, List.map_cons, toList_pathText_cons, List.flatMap_cons]
        rw [List.map_cons, toList_pathText_cons] at ih
        simp only [String.toList_ofList] at ih ⊢
        rw [List.nil_append, ← ih]
        simp
    | case3 c r _ hnil => exact absurd hnil (splitColons_ne_nil r)
    | case4 c r _ part parts hparts ih =>
      rw [hparts] at ih
      rw [List.map_cons, toList_pathText_cons] at ih ⊢
      simp only [String.toList_ofList] at ih ⊢
      rw [List.cons_append, ih]
  rw [← String.toList_inj]
  exact hjoin _

/-- **A segment that comes apart as it was put in**: it is not empty, and has no colons and no blanks. -/
structure IsSegment (s : String) : Prop where
  ne_empty : s ≠ ""
  no_colon : ':' ∉ s.toList
  no_blank : ∀ c ∈ s.toList, isBlank c = false

theorem isSegment_of_isWord {s : String} (h : isWord s.toList = true) : IsSegment s where
  ne_empty := fun hempty => ne_nil_of_isWord h (by rw [hempty]; rfl)
  no_colon := not_mem_of_isWord h (by decide) (by decide)
  no_blank := isBlank_of_isWord h

/-- Segments come apart by whatever leaves texts without blanks as they are. -/
theorem segments_pathText {segments : List String} (h : ∀ s ∈ segments, IsSegment s)
    {clean : List Char → List Char} (hclean : ∀ {cs}, (∀ c ∈ cs, isBlank c = false) → clean cs = cs) :
    (((splitColons (pathText segments).toList).map clean).filter (!·.isEmpty)).map String.ofList =
      segments := by
  cases segments with
  | nil =>
    have hnil : clean [] = [] := hclean (by simp)
    have hsplit : splitColons (pathText []).toList = [[]] := rfl
    simp [hsplit, hnil]
  | cons first r =>
    have hkept : ∀ s ∈ first :: r, (clean s.toList).isEmpty = false ∧
        String.ofList (clean s.toList) = s := by
      intro s hs
      rw [hclean (h s hs).no_blank, String.ofList_toList]
      exact ⟨List.isEmpty_eq_false_iff.2 (by simpa using (h s hs).ne_empty), rfl⟩
    rw [splitColons_pathText fun s hs => (h s hs).no_colon, List.map_map, List.filter_map,
      List.map_map, List.filter_eq_self.2 fun s hs => by simpa using (hkept s hs).1]
    exact (List.map_congr_left fun s hs => (hkept s hs).2).trans (List.map_id _)

theorem packageSegments_pathText {segments : List String} (h : ∀ s ∈ segments, IsSegment s) :
    packageSegments (pathText segments) = segments :=
  segments_pathText h trim_of_forall

/-- **A path of words comes apart into its words.** -/
theorem splitPath_pathText {segments : List String} (h : ∀ s ∈ segments, isWord s.toList = true) :
    splitPath (pathText segments) = segments :=
  segments_pathText (fun s hs => isSegment_of_isWord (h s hs)) squeeze_of_forall

end ModelPool
