import ModelPool.Proofs.Files.Spelling
import ModelPool.Proofs.Results

/-!
# Proofs/Files/Changing — what writing a file does to the places of a tree

Writing a file puts one entry into a directory that is there.

* `puts_of_writeFile` — what it does.
-/

namespace ModelPool

namespace FileTree

/-! ## One entry -/

/-- **One entry is put at a place**, which lies inside a directory, and no other place has changed. -/
structure Puts (t : FileTree) (place : Place) (e : Entry) (u : FileTree) : Prop where
  current : u.current = t.current
  parent : t.at? place.dropLast = some .directory
  at?_eq : ∀ other, u.at? other = if other = place then some e else t.at? other

theorem puts_write (t : FileTree) {place : Place} {e : Entry} (hne hnames hparent hkeep) :
    t.Puts place e (t.write place e hne hnames hparent hkeep) :=
  ⟨rfl, hparent, t.at?_write hne hnames hparent hkeep⟩

/-- **What writing a file does.** -/
theorem puts_of_writeFile {t u : FileTree} {p : FilePath} {bytes : ByteArray}
    (h : t.writeFile p bytes = .ok u) : ∃ place, t.place p = .ok place ∧
      t.at? place ≠ some .directory ∧ t.Puts place (.file bytes) u := by
  unfold writeFile at h
  split at h
  · simp at h
  · next place hplace =>
    obtain ⟨⟨hparent⟩, -, h⟩ := bind_eq_ok_iff.1 h
    refine ⟨place, hplace, ?_⟩
    dsimp only at h
    split at h
    · simp at h
    · next hat =>
      split at h
      · simp at h
      · obtain rfl := Except.ok.inj h
        exact ⟨by simp [hat], t.puts_write _ _ _ _⟩
    · next hat =>
      split at h
      · simp at h
      · obtain rfl := Except.ok.inj h
        exact ⟨by simp [hat], t.puts_write _ _ _ _⟩

/-- **A file is written into a directory**, where no other one stands in its place. -/
theorem exists_writeFile {t : FileTree} {p : FilePath} {place : Place} (bytes : ByteArray)
    (hplace : t.place p = .ok place) (hne : place ≠ [])
    (hparent : t.at? place.dropLast = some .directory) (hfree : t.at? place ≠ some .directory) :
    ∃ u, t.writeFile p bytes = .ok u := by
  unfold writeFile
  split
  · next he => exact absurd (he.symm.trans hplace) (by simp)
  · next place' hplace' =>
    obtain rfl := Except.ok.inj (hplace'.symm.trans hplace)
    have hcheck : t.checkParent place' = .ok ⟨hparent⟩ := dif_pos hparent
    rw [hcheck]
    dsimp only [bind, Except.bind]
    split
    · next hdir => exact absurd hdir hfree
    · exact ⟨_, dif_neg hne⟩
    · exact ⟨_, dif_neg hne⟩

/-- **A directory that is found is found** in a tree that has all directories of the first one. -/
theorem find_directory_of_kept {t u : FileTree} {p : FilePath} {q : Place}
    (hcurrent : u.current = t.current)
    (hkept : ∀ place, t.at? place = some .directory → u.at? place = some .directory)
    (h : t.find p = .ok (q, .directory)) : u.find p = .ok (q, .directory) := by
  have hlocate : ∀ {start : Place} {ps : List String},
      t.locate start ps = .ok q → u.locate start ps = .ok q := by
    intro start ps
    induction ps generalizing start with
    | nil => simp [locate]
    | cons piece r ih =>
      intro hplace
      have hat := t.directory_of_locate (List.cons_ne_nil _ _) hplace
      rw [t.locate_cons hat] at hplace
      rw [u.locate_cons (hkept _ hat)]
      split at hplace
      · next hfits =>
        rw [if_pos hfits]
        exact ih hplace
      · simp at hplace
  obtain ⟨hplace, hat⟩ := t.find_eq_ok_iff.1 h
  refine u.find_eq_ok_iff.2 ⟨?_, hkept _ hat⟩
  by_cases hempty : p.text.isEmpty = true
  · simp [FileTree.place, hempty] at hplace
  · rw [t.place_eq_locate hempty] at hplace
    rw [u.place_eq_locate hempty, base_congr hcurrent]
    exact hlocate hplace

/-- A directory is found after a file has been put elsewhere. -/
theorem Puts.find_directory {t u : FileTree} {place q : Place} {bytes : ByteArray} {p : FilePath}
    (h : t.Puts place (.file bytes) u) (hfile : t.at? place ≠ some .directory)
    (hfind : t.find p = .ok (q, .directory)) : u.find p = .ok (q, .directory) := by
  refine find_directory_of_kept h.current (fun other hother => ?_) hfind
  rw [h.at?_eq, if_neg, hother]
  rintro rfl
  exact hfile hother

end FileTree

end ModelPool
