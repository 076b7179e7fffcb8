import ModelPool.Proofs.Files.Changing

/-!
# Proofs/Files/Growth — trees to which files are added

A tree grows in a directory when files are put directly into it and nothing that stood anywhere is lost.
Every path then leads where it led before, and every other directory lists what it listed before.

* `Grows.place_iff` — paths lead to the same places.
* `Grows.list_eq` — every other directory lists the same.
* `Grows.writeFile` — a tree grows by a file that is written.
-/

namespace ModelPool

namespace FileTree

/-- **A tree grows in a directory** by files that are put into it. -/
structure Grows (d : Place) (t u : FileTree) : Prop where
  current : u.current = t.current
  directory : t.at? d = some .directory
  kept : ∀ place e, t.at? place = some e → u.at? place = some e
  added : ∀ place e, u.at? place = some e →
    t.at? place = some e ∨
      ∃ (name : String) (text : String), place = d ++ [name] ∧ e = .file text.toUTF8

namespace Grows

variable {d : Place} {t u v : FileTree}

theorem refl (h : t.at? d = some .directory) : Grows d t t :=
  ⟨rfl, h, fun _ _ he => he, fun _ _ he => .inl he⟩

/-! ## Places -/

/-- No directory comes or goes. -/
theorem directory_iff (h : Grows d t u) {place : Place} :
    u.at? place = some .directory ↔ t.at? place = some .directory := by
  refine ⟨fun hu => ?_, h.kept place _⟩
  rcases h.added place _ hu with ht | ⟨_, _, _, he⟩
  · exact ht
  · exact absurd he (by simp)

/-- Elsewhere nothing comes or goes. -/
theorem at?_eq (h : Grows d t u) {place : Place} (hne : place.dropLast ≠ d) :
    u.at? place = t.at? place := by
  cases ht : t.at? place with
  | some e => exact h.kept place e ht
  | none =>
    cases hu : u.at? place with
    | none => rfl
    | some e =>
      rcases h.added place e hu with he | ⟨name, _, rfl, _⟩
      · exact absurd (ht.symm.trans he) (by simp)
      · exact absurd List.dropLast_concat hne

/-- Pieces lead to the same places. -/
theorem locate_iff (h : Grows d t u) {start q : Place} {ps : List String} :
    u.locate start ps = .ok q ↔ t.locate start ps = .ok q := by
  induction ps generalizing start with
  | nil => rw [locate, locate]
  | cons piece r ih =>
    by_cases hd : t.at? start = some .directory
    · rw [t.locate_cons hd, u.locate_cons (h.kept _ _ hd)]
      split
      · exact ih
      · rfl
    · have hu : ¬ u.at? start = some .directory := mt h.directory_iff.1 hd
      have hfail : ∀ w : FileTree, ¬ w.at? start = some .directory →
          ¬ w.locate start (piece :: r) = .ok q := by
        intro w hw
        unfold locate
        split
        · simp
        · simp
        · next hdir => exact absurd hdir hw
      exact iff_of_false (hfail u hu) (hfail t hd)

/-- **Paths lead to the same places.** -/
theorem place_iff (h : Grows d t u) {p : FilePath} {q : Place} :
    u.place p = .ok q ↔ t.place p = .ok q := by
  unfold FileTree.place
  split
  · rfl
  · split
    · exact h.locate_iff
    · rw [h.current]
      exact h.locate_iff

/-- Directories are found where they were found. -/
theorem find_directory_iff (h : Grows d t u) {p : FilePath} {q : Place} :
    u.find p = .ok (q, .directory) ↔ t.find p = .ok (q, .directory) := by
  rw [find_eq_ok_iff, find_eq_ok_iff, h.place_iff, h.directory_iff]

theorem isDirectory_eq (h : Grows d t u) (p : FilePath) : u.isDirectory p = t.isDirectory p := by
  rw [Bool.eq_iff_iff, isDirectory_iff, isDirectory_iff]
  exact exists_congr fun _ => h.find_directory_iff

theorem normalized_eq (h : Grows d t u) {p : FilePath} (hp : t.isDirectory p = true) :
    u.normalized p = t.normalized p := by
  obtain ⟨q, hq⟩ := isDirectory_iff.1 hp
  rw [normalized_of_find hq, normalized_of_find (h.find_directory_iff.2 hq)]

/-! ## Other directories -/

section Elsewhere

variable {p : FilePath} {q : Place}

/-- What stands in another directory is found as before. -/
theorem find_child_eq (h : Grows d t u) (hp : t.find p = .ok (q, .directory)) (hq : q ≠ d)
    {name : String} (hn : IsEntryName name) : u.find (p.child name) = t.find (p.child name) := by
  have hplace := t.place_child hp hn
  have hat : u.at? (q ++ [name]) = t.at? (q ++ [name]) :=
    h.at?_eq (by rw [List.dropLast_concat]; exact hq)
  unfold find
  rw [hplace, h.place_iff.2 hplace]
  simp only [bind, Except.bind, hat]

/-- **Another directory lists what it listed.** -/
theorem list_eq (h : Grows d t u) (hp : t.find p = .ok (q, .directory)) (hq : q ≠ d) :
    u.list p = t.list p := by
  have hnames : u.namesIn q = t.namesIn q := by
    refine namesIn_congr fun name => ?_
    rw [h.at?_eq (by rw [List.dropLast_concat]; exact hq)]
  unfold list
  rw [hp, h.find_directory_iff.2 hp]
  simp only [bind, Except.bind, hnames]

end Elsewhere

end Grows

/-! ## Writing -/

/-- **A tree that has grown grows by one more file**, if there was none of its name. -/
theorem Grows.writeFile {d : Place} {t u v : FileTree} (h : Grows d t u) {p : FilePath}
    (hp : t.find p = .ok (d, .directory)) {name : String} (hn : IsName name)
    (hnew : ∀ bytes, t.at? (d ++ [name]) ≠ some (.file bytes)) {text : String}
    (hw : u.writeFile (p.child name) text.toUTF8 = .ok v) : Grows d t v := by
  obtain ⟨place, hplace, hfile, hputs⟩ := puts_of_writeFile hw
  obtain rfl : d ++ [name] = place :=
    (t.eq_of_place_child hp hn (h.place_iff.1 hplace)).symm
  refine ⟨hputs.current.trans h.current, h.directory, fun place e he => ?_, fun place e he => ?_⟩
  · rw [hputs.at?_eq, if_neg, h.kept place e he]
    rintro rfl
    cases e with
    | directory => exact hfile (h.kept _ _ he)
    | file bytes => exact hnew bytes he
  · rw [hputs.at?_eq] at he
    split at he
    · next heq => exact .inr ⟨name, text, heq, (Option.some.inj he).symm⟩
    · exact h.added place e he

end FileTree

end ModelPool
