import ModelPool.Proofs.Files.Spelling
import ModelPool.Proofs.Source.Words
import ModelPool.Run.Resolution

/-!
# Proofs/Pool/Directory — what a directory that is accepted for the pool looks like

What stands between the slashes of an accepted directory, of either kind, is an identifier.  So there is no
blank in it, and the import path of the pool is one that trimming leaves as it is.

* `trimmed_pool` — the import path of a pool is trimmed.
* `findsDirectory_poolPath` — the directory of a pool is found.
* `endsInName_poolPath` — the path of a pool ends in a name.
-/

namespace ModelPool

open Text

/-! ## Characters of pieces -/

/-- Every character but a slash stands in a piece. -/
theorem exists_mem_pieces {c : Char} {cs : List Char} (h : c ∈ cs) (hc : c ≠ '/') :
    ∃ p ∈ pieces cs, c ∈ p := by
  induction cs with
  | nil => exact absurd h List.not_mem_nil
  | cons d r ih =>
    by_cases hd : d = '/'
    · rw [pieces, if_pos hd]
      have hr : c ∈ r := (List.mem_cons.1 h).resolve_left fun e => hc (e.trans hd)
      obtain ⟨p, hp, hcp⟩ := ih hr
      exact ⟨p, List.mem_cons_of_mem _ hp, hcp⟩
    · rw [pieces, if_neg hd]
      cases hpieces : pieces r with
      | nil => exact absurd hpieces (pieces_ne_nil r)
      | cons q qs =>
        rcases List.mem_cons.1 h with rfl | hr
        · exact ⟨_, List.mem_cons_self, List.mem_cons_self⟩
        · obtain ⟨p, hp, hcp⟩ := ih hr
          rcases List.mem_cons.1 (hpieces ▸ hp) with rfl | hp
          · exact ⟨_, List.mem_cons_self, List.mem_cons_of_mem _ hcp⟩
          · exact ⟨p, List.mem_cons_of_mem _ hp, hcp⟩

/-- And a piece has no other characters. -/
theorem mem_of_mem_pieces {c : Char} {p cs : List Char} (hp : p ∈ pieces cs) (h : c ∈ p) :
    c ∈ cs := by
  induction cs generalizing p with
  | nil =>
    obtain rfl : p = [] := by simpa [pieces] using hp
    exact h
  | cons d r ih =>
    unfold pieces at hp
    split at hp
    · rcases List.mem_cons.1 hp with rfl | hp
      · exact absurd h List.not_mem_nil
      · exact List.mem_cons_of_mem _ (ih hp h)
    · split at hp
      · next hpieces => exact absurd hpieces (pieces_ne_nil r)
      · next q qs hpieces =>
        rcases List.mem_cons.1 hp with rfl | hp
        · rcases List.mem_cons.1 h with rfl | h
          · exact List.mem_cons_self
          · exact List.mem_cons_of_mem _ (ih (by simp [hpieces]) h)
        · exact List.mem_cons_of_mem _ (ih (by simp [hpieces, hp]) h)

/-! ## Blanks -/

/-- A plain character is no blank. -/
theorem isBlank_of_isPlain {c : Char} (h : isPlain c = true) : isBlank c = false :=
  isBlank_of_isIdentifierTail (Source.isIdentifierTail_of_isPlain h)

/-! ## Accepted directories -/

theorem isPlain_of_isIdentifier {s : String} (h : isIdentifier s = true) :
    ∀ c ∈ s.toList, isPlain c = true := by
  unfold isIdentifier at h
  split at h
  · simp at h
  · next first r hs =>
    rw [hs]
    simp only [Bool.and_eq_true, Bool.or_eq_true] at h
    refine List.forall_mem_cons.2 ⟨?_, List.all_eq_true.1 h.2⟩
    simp only [isPlain, Char.isAlphanum, Bool.or_eq_true]
    exact h.1.1.imp_left .inl

theorem isIdentifier_of_badSegment? {segments : List String} (h : badSegment? segments = none) :
    ∀ s ∈ segments, isIdentifier s = true := by
  unfold badSegment? at h
  split at h
  · exact fun s hs => absurd hs List.not_mem_nil
  · next first r =>
    split at h
    · simp at h
    · next hfirst =>
      simp only [Bool.or_eq_true, not_or, Bool.not_eq_true', Bool.not_eq_false] at hfirst
      refine List.forall_mem_cons.2 ⟨hfirst.2, fun s hs => ?_⟩
      simpa using List.find?_eq_none.1 h s hs

variable {dir : FilePath}

/-- What an accepted directory is made of. -/
theorem badSegment?_of_check (h : checkPoolDirectory dir = .ok ()) :
    dir.components ≠ [] ∧ badSegment? (poolSegments dir) = none := by
  unfold checkPoolDirectory at h
  split at h
  · simp at h
  · next hsome =>
    split at h
    · simp at h
    · next hnone => exact ⟨by simpa using (not_or.1 (mt Bool.or_eq_true_iff.2 hsome)).2, hnone⟩

/-- **An accepted directory consists of plain characters**, besides its slashes. -/
theorem isPlain_of_check (h : checkPoolDirectory dir = .ok ()) :
    ∀ c ∈ dir.text.toList, c = '/' ∨ c = '\\' ∨ isPlain c = true := by
  intro c hc
  by_cases hslash : c = '/' ∨ c = '\\'
  · exact hslash.imp_right .inl
  · obtain ⟨hforward, hback⟩ := not_or.1 hslash
    have hmapped : c ∈ dir.text.toList.map fun c => if c = '\\' then '/' else c :=
      List.mem_map.2 ⟨c, hc, if_neg hback⟩
    obtain ⟨p, hp, hcp⟩ := exists_mem_pieces hmapped hforward
    have hsegment : String.ofList p ∈ poolSegments dir := by
      refine List.mem_map_of_mem (List.mem_filter.2 ⟨hp, ?_⟩)
      cases p with
      | nil => exact absurd hcp List.not_mem_nil
      | cons _ _ => rfl
    have hplain := isPlain_of_isIdentifier
      (isIdentifier_of_badSegment? (badSegment?_of_check h).2 _ hsegment)
    exact .inr (.inr (hplain c (by rwa [String.toList_ofList])))

theorem isBlank_of_check (h : checkPoolDirectory dir = .ok ()) :
    ∀ c ∈ dir.text.toList, isBlank c = false := by
  intro c hc
  rcases isPlain_of_check h c hc with rfl | rfl | hplain
  · decide
  · decide
  · exact isBlank_of_isPlain hplain

/-- It does not go up. -/
theorem up_not_mem_of_check (h : checkPoolDirectory dir = .ok ()) : ".." ∉ dir.parts := by
  intro hmem
  obtain ⟨cs, hcs, hup⟩ := List.mem_map.1 hmem
  obtain rfl : cs = ['.', '.'] := by
    rw [← String.toList_ofList (l := cs), hup]
    rfl
  have hdot := isPlain_of_check h '.' (mem_of_mem_pieces hcs List.mem_cons_self)
  exact absurd hdot (by decide)

theorem isAbsolute_of_check (h : checkPoolDirectory dir = .ok ()) : dir.isAbsolute = false := by
  unfold checkPoolDirectory at h
  split at h
  · simp at h
  · next hsome => simpa using (not_or.1 (mt Bool.or_eq_true_iff.2 hsome)).1

/-- The pieces of an accepted directory are names. -/
theorem isName_of_check (h : checkPoolDirectory dir = .ok ()) {piece : String}
    (hpiece : piece ∈ dir.parts) (hne : piece ≠ "") : IsName piece := by
  obtain ⟨cs, hcs, rfl⟩ := List.mem_map.1 hpiece
  have hdot : '.' ∉ cs := fun hmem =>
    absurd (isPlain_of_check h '.' (mem_of_mem_pieces hcs hmem)) (by decide)
  have hother : ∀ other : String, '.' ∈ other.toList → String.ofList cs ≠ other := by
    rintro _ hmem rfl
    exact hdot (by rwa [String.toList_ofList] at hmem)
  exact ⟨hne, hother _ (by decide), hother _ (by decide), FilePath.not_mem_of_mem_parts hpiece⟩

theorem exists_piece_of_check (h : checkPoolDirectory dir = .ok ()) :
    ∃ piece ∈ dir.parts, piece ≠ "" := by
  have hsome := (badSegment?_of_check h).1
  have hrelative := isAbsolute_of_check h
  unfold FilePath.components at hsome
  cases hparts : dir.parts with
  | nil => exact absurd hparts dir.parts_ne_nil
  | cons first r =>
    rw [hparts] at hsome
    simp only [hrelative, Bool.false_eq_true, if_false] at hsome
    by_cases hfirst : first = "."
    · exact ⟨first, List.mem_cons_self, hfirst ▸ by decide⟩
    · rw [if_neg hfirst] at hsome
      obtain ⟨c, hc⟩ := List.exists_mem_of_ne_nil _ hsome
      obtain ⟨piece, hpiece, hstep⟩ := List.mem_filterMap.1 hc
      refine ⟨piece, hpiece, ?_⟩
      rintro rfl
      simp [FilePath.step?] at hstep

/-- **The name of a pool is a word.** -/
theorem isWord_poolName (dir : FilePath) : Source.isWord (poolName dir).toList = true :=
  Source.isWord_sanitizedName _

/-- The text of a path has the characters of its segments, and colons. -/
theorem mem_pathText {c : Char} {segments : List String} (h : c ∈ (pathText segments).toList) :
    c = ':' ∨ ∃ s ∈ segments, c ∈ s.toList := by
  induction segments with
  | nil => simp [pathText] at h
  | cons s r ih =>
    cases r with
    | nil => exact .inr ⟨s, List.mem_singleton_self s, by simpa [pathText] using h⟩
    | cons s' r =>
      have htext : (pathText (s :: s' :: r)).toList =
          s.toList ++ [':', ':'] ++ (pathText (s' :: r)).toList := by
        simp [pathText, String.intercalate_cons_cons]
      rw [htext, List.mem_append, List.mem_append] at h
      rcases h with (h | h) | h
      · exact .inr ⟨s, List.mem_cons_self, h⟩
      · exact .inl (by simpa using h)
      · obtain hcolon | ⟨s'', hs'', hc⟩ := ih h
        · exact .inl hcolon
        · exact .inr ⟨s'', List.mem_cons_of_mem _ hs'', hc⟩

namespace RunConfig

variable {c : RunConfig}

/-- The name of a run's pool is a word. -/
theorem isWord_poolName (c : RunConfig) : Source.isWord c.poolName.toList = true :=
  ModelPool.isWord_poolName c.poolDir

/-- **The import path of a pool is trimmed.** -/
theorem trimmed_pool (h : checkPoolDirectory c.poolDir = .ok ()) : trimmed c.pool = c.pool := by
  refine trimmed_of_forall fun char hchar => ?_
  rcases mem_pathText hchar with rfl | ⟨s, hs, hmem⟩
  · decide
  · obtain ⟨step, hstep, hname⟩ := List.mem_filterMap.1 hs
    cases step with
    | name s' =>
      obtain rfl : s' = s := by simpa using hname
      obtain ⟨cs, hcs, rfl⟩ := List.mem_map.1 (FilePath.mem_parts_of_mem_components hstep)
      rw [String.toList_ofList] at hmem
      exact isBlank_of_check h char (mem_of_mem_pieces hcs hmem)
    | _ => simp at hname

/-- **The path of a pool is not empty.** -/
theorem not_isEmpty_poolPath (h : checkPoolDirectory c.poolDir = .ok ()) :
    ¬ c.poolPath.text.isEmpty = true := by
  have hdir : c.poolDir.text ≠ "" := by
    intro hempty
    refine (badSegment?_of_check h).1 ?_
    simp [FilePath.components, FilePath.parts, FilePath.isAbsolute, FilePath.step?, hempty, pieces]
  rw [String.isEmpty_iff]
  unfold poolPath FilePath.join
  split
  · exact hdir
  · split
    · intro heq
      have hlist := congrArg String.toList heq
      simp [hdir] at hlist
    · intro heq
      have hlist := congrArg String.toList heq
      simp at hlist

/-- **The pool is found where it stands**: either its path does not go up, or the framework is there. -/
theorem findsDirectory_poolPath {t : FileTree} (h : checkPoolDirectory c.poolDir = .ok ())
    (hroot : t.isDirectory c.frameworkRoot = true ∨ .up ∉ c.poolPath.components) :
    t.FindsDirectory c.poolPath := by
  rcases hroot with hroot | hup
  · exact t.findsDirectory_join hroot (isAbsolute_of_check h) (up_not_mem_of_check h)
  · exact t.findsDirectory_of_not_up (not_isEmpty_poolPath h) (FilePath.up_not_mem_parts hup)

/-- The pieces of its directory are the last ones of the path of a pool. -/
theorem exists_parts_poolPath (c : RunConfig) (hrelative : c.poolDir.isAbsolute = false) :
    ∃ lead, c.poolPath.parts = lead ++ c.poolDir.parts := by
  by_cases hempty : c.frameworkRoot.text.isEmpty = true
  · refine ⟨[], ?_⟩
    have htext : c.frameworkRoot.text = "" := String.isEmpty_iff.1 hempty
    simp [poolPath, FilePath.join, hrelative, htext]
  · rcases FilePath.parts_join hempty hrelative with hparts | ⟨ps, -, hparts⟩
    · exact ⟨_, hparts⟩
    · exact ⟨_, hparts⟩

/-- **The path of a pool ends in a name.** -/
theorem endsInName_poolPath (h : checkPoolDirectory c.poolDir = .ok ()) :
    c.poolPath.EndsInName := by
  have hrelative := isAbsolute_of_check h
  obtain ⟨lead, hlead⟩ := c.exists_parts_poolPath hrelative
  obtain ⟨piece, hpiece, hne⟩ := exists_piece_of_check h
  obtain ⟨ps, last, hlast, hlastne⟩ := FilePath.exists_last_withoutEndSlashes
    (hlead ▸ List.mem_append_right lead hpiece) hne
  obtain ⟨n, hn⟩ := c.poolPath.exists_parts_withoutEndSlashes
  refine ⟨ps, last, hlast, ?_⟩
  -- the last piece that is not empty stands in the directory, since some piece there is not empty
  have hend : ((lead ++ c.poolDir.parts).filter (· ≠ "")).getLast? = some last := by
    rw [← hlead, hn, hlast]
    simp [hlastne]
  have hsome : c.poolDir.parts.filter (· ≠ "") ≠ [] :=
    List.ne_nil_of_mem (List.mem_filter.2 ⟨hpiece, by simpa using hne⟩)
  rw [List.filter_append, List.getLast?_append_of_ne_nil _ hsome] at hend
  exact isName_of_check h (List.mem_filter.1 (List.mem_of_getLast? hend)).1 hlastne

end RunConfig

end ModelPool
