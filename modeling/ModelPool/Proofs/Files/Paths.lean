import Mathlib.Data.List.Induction
import Mathlib.Data.List.Sort
import ModelPool.Files.Access

/-!
# Proofs/Files/Paths — where paths lead to

A path leads to a place through its pieces.  The path of a place leads there, and the path of a name
inside a directory leads to the place of that name.

* `find_ofPlace` — the path of a place finds what stands there.
* `place_child_iff` — a name inside a directory.
* `eq_leads` — a path leads to one place in every tree.
* `namesIn_congr` — what a directory lists depends only on where something stands.
-/

namespace ModelPool

/-! ## Pieces -/

/-- Pieces on both sides of a slash. -/
theorem pieces_append_slash (cs ds : List Char) :
    pieces (cs ++ '/' :: ds) = pieces cs ++ pieces ds := by
  induction cs with
  | nil => simp [pieces]
  | cons c cs ih =>
    by_cases hc : c = '/'
    · simp [pieces, hc, ih]
    · rw [List.cons_append, pieces, pieces, if_neg hc, if_neg hc, ih]
      cases hp : pieces cs with
      | nil => exact absurd hp (pieces_ne_nil cs)
      | cons p ps => rfl

/-- A text without a slash is one piece. -/
theorem pieces_of_not_mem {cs : List Char} (h : '/' ∉ cs) : pieces cs = [cs] := by
  induction cs with
  | nil => rfl
  | cons c cs ih =>
    obtain ⟨hc, hcs⟩ := not_or.1 (mt List.mem_cons.2 h)
    rw [pieces, if_neg (Ne.symm hc), ih hcs]

namespace FilePath

/-- The pieces of two texts with a slash between them. -/
theorem parts_append_slash (s s' : String) : parts ⟨s ++ "/" ++ s'⟩ = parts ⟨s⟩ ++ parts ⟨s'⟩ := by
  have htext : (s ++ "/" ++ s').toList = s.toList ++ '/' :: s'.toList := by
    rw [String.toList_append, String.toList_append, List.append_assoc]
    rfl
  rw [parts, parts, parts, htext, pieces_append_slash, List.map_append]

theorem parts_name {name : String} (h : IsName name) : parts ⟨name⟩ = [name] := by
  rw [parts, pieces_of_not_mem h.no_slash]
  simp

theorem parts_ne_nil (p : FilePath) : p.parts ≠ [] :=
  mt List.map_eq_nil_iff.1 (pieces_ne_nil _)

/-- **The pieces of joined paths** are those of both, but for the empty piece at the end of the first. -/
theorem parts_join {p q : FilePath} (hne : ¬ p.text.isEmpty = true) (hq : q.isAbsolute = false) :
    (p.join q).parts = p.parts ++ q.parts ∨
      ∃ ps, p.parts = ps ++ [""] ∧ (p.join q).parts = ps ++ q.parts := by
  unfold join
  rw [if_neg (by simp [hq])]
  split
  · next hend =>
    have hlast : p.text.toList.getLast? = some '/' := by simpa [hne] using hend
    obtain ⟨cs, hcs⟩ := List.getLast?_eq_some_iff.1 hlast
    have htext : p.text = String.ofList cs ++ "/" := by
      rw [← String.toList_inj, hcs, String.toList_append, String.toList_ofList]
      rfl
    refine .inr ⟨parts ⟨String.ofList cs⟩, ?_, ?_⟩
    · rw [parts, parts, hcs, pieces_append_slash]
      simp [pieces]
    · rw [htext, parts_append_slash]
  · exact .inl (parts_append_slash _ _)

/-- The path of a directory goes on with another path. -/
theorem exists_text_join (p : FilePath) {q : FilePath} (hq : q.isAbsolute = false) :
    ∃ s, (p.join q).text = p.text ++ s := by
  unfold join
  rw [if_neg (by simp [hq])]
  split
  · exact ⟨q.text, rfl⟩
  · exact ⟨"/" ++ q.text, String.append_assoc⟩

/-- A path is absolute if an empty piece comes before another one. -/
theorem isAbsolute_iff {p : FilePath} : p.isAbsolute = true ↔ ∃ ps, ps ≠ [] ∧ p.parts = "" :: ps := by
  unfold isAbsolute parts
  rw [decide_eq_true_iff]
  cases htext : p.text.toList with
  | nil => simp [pieces]
  | cons c r =>
    rw [List.head?_cons, Option.some.injEq, pieces]
    split
    · next hc =>
      refine iff_of_true hc ⟨_, ?_, rfl⟩
      exact mt List.map_eq_nil_iff.1 (pieces_ne_nil r)
    · next hc =>
      refine iff_of_false hc ?_
      rintro ⟨ps, -, hps⟩
      split at hps
      · simp at hps
      · simp at hps

/-- A piece that stands for no name is not too long for one. -/
theorem fits_of_step? {piece : String} (h : ∀ name, step? piece ≠ some (.name name)) : fits piece = true := by
  unfold step? at h
  split at h
  · next hstay => rcases hstay with rfl | rfl <;> decide
  · split at h
    · next hup => rw [hup]; decide
    · exact absurd rfl (h piece)

/-- **The steps of a path are those of its pieces**, behind a root or a single dot at its start. -/
theorem exists_components_eq (p : FilePath) : ∃ lead, p.components = lead ++ p.parts.filterMap step? ∧
    (lead = [] ∨ lead = [.root] ∨ lead = [.here]) := by
  unfold components
  cases hparts : p.parts with
  | nil => exact ⟨[], rfl, .inl rfl⟩
  | cons first r =>
    dsimp only
    split
    · next habsolute =>
      obtain ⟨_, -, hfirst⟩ := isAbsolute_iff.1 habsolute
      obtain rfl := (List.cons.inj (hparts.symm.trans hfirst)).1
      exact ⟨[.root], rfl, .inr (.inl rfl)⟩
    · split
      · next hfirst =>
        obtain rfl := hfirst
        exact ⟨[.here], rfl, .inr (.inr rfl)⟩
      · exact ⟨[], rfl, .inl rfl⟩

/-- **The last name of a path**, behind which there are only slashes. -/
theorem fileName?_of_parts {p : FilePath} {ps : List String} {name : String} {n : Nat} (hname : IsName name)
    (h : p.parts = ps ++ [name] ++ List.replicate n "") : p.fileName? = some name := by
  obtain ⟨lead, hcomponents, -⟩ := p.exists_components_eq
  have hend : (List.replicate n "").filterMap step? = [] := by simp [step?]
  have hsteps : p.components = (lead ++ ps.filterMap step?) ++ [.name name] := by
    rw [hcomponents, h, List.filterMap_append, List.filterMap_append, hend, List.append_nil,
      List.append_assoc]
    simp [step?_name hname]
  unfold fileName?
  rw [hsteps, List.getLast?_concat]

/-- A name alone is a relative path. -/
theorem isAbsolute_name {name : String} (h : IsName name) : isAbsolute ⟨name⟩ = false := by
  cases hs : name.toList with
  | nil => simp [isAbsolute, hs]
  | cons c cs =>
    have hc : c ≠ '/' := fun e => h.no_slash (by simp [hs, e])
    simp [isAbsolute, hs, hc]

end FilePath

namespace FileTree

/-! ## Places of names -/

theorem locate_append_iff (t : FileTree) {place q : Place} {ps qs : List String} :
    t.locate place (ps ++ qs) = .ok q ↔ ∃ d, t.locate place ps = .ok d ∧ t.locate d qs = .ok q := by
  rw [locate_append]
  cases t.locate place ps with
  | error e => simp [Except.bind]
  | ok d => simp [Except.bind]

/-- One more name is looked up in a directory, unless it is too long. -/
theorem locate_singleton (t : FileTree) {place q : Place} {name : String} (h : IsName name) :
    t.locate place [name] = .ok q ↔
      t.at? place = some .directory ∧ fits name = true ∧ q = place ++ [name] := by
  unfold locate
  cases hd : t.at? place with
  | none => simp
  | some e =>
    cases e with
    | file bytes => simp
    | directory =>
      cases hfits : fits name with
      | false => simp
      | true => simpa [FilePath.step?_name h, locate] using eq_comm

/-- A piece without a name stays where it is. -/
theorem locate_empty (t : FileTree) {place q : Place} :
    t.locate place [""] = .ok q ↔ t.at? place = some .directory ∧ q = place := by
  unfold locate
  cases hd : t.at? place with
  | none => simp
  | some e =>
    cases e with
    | file bytes => simp
    | directory => simpa [FilePath.step?, locate, fits_empty] using eq_comm

/-- Names lead down to where something stands. -/
theorem locate_names (t : FileTree) {place names : Place} {e : Entry}
    (h : t.at? (place ++ names) = some e) : t.locate place names = .ok (place ++ names) := by
  induction names using List.reverseRecOn generalizing e with
  | nil => rw [List.append_nil, locate]
  | append_singleton names name ih =>
    rw [← List.append_assoc] at h ⊢
    have hd : t.at? (place ++ names) = some .directory := t.at?_parent h
    have hn : IsEntryName name := t.isEntryName_of_at? h name (by simp)
    exact t.locate_append_iff.2 ⟨_, ih hd, (t.locate_singleton hn.toIsName).2 ⟨hd, hn.fits, rfl⟩⟩

end FileTree

/-! ## Paths of places -/

namespace FilePath

/-- The pieces of joined names. -/
theorem pieces_intercalate {name : String} {names : List String}
    (h : ∀ n ∈ name :: names, '/' ∉ n.toList) :
    (pieces ("/".intercalate (name :: names)).toList).map String.ofList = name :: names := by
  induction names generalizing name with
  | nil => simp [pieces_of_not_mem (h name List.mem_cons_self)]
  | cons n ns ih =>
    have htext : ("/".intercalate (name :: n :: ns)).toList =
        name.toList ++ '/' :: ("/".intercalate (n :: ns)).toList := by
      simp [String.intercalate_cons_cons]
    rw [htext, pieces_append_slash, List.map_append,
      ih fun m hm => h m (List.mem_cons_of_mem _ hm),
      pieces_of_not_mem (h name List.mem_cons_self)]
    simp

theorem parts_ofPlace {place : List String} (h : ∀ n ∈ place, '/' ∉ n.toList) :
    (ofPlace place).parts = "" :: if place = [] then [""] else place := by
  have htext : (ofPlace place).text.toList = [] ++ '/' :: ("/".intercalate place).toList := by
    simp [ofPlace]
  rw [parts, htext, pieces_append_slash, List.map_append]
  cases place with
  | nil => simp [pieces]
  | cons name names =>
    rw [pieces_intercalate h]
    simp [pieces]

theorem isAbsolute_ofPlace (place : List String) : (ofPlace place).isAbsolute = true := by
  simp [ofPlace, isAbsolute]

end FilePath

namespace FileTree

/-- **The path of a place finds what stands there.** -/
theorem find_ofPlace (t : FileTree) {place : Place} {e : Entry} (h : t.at? place = some e) :
    t.find (.ofPlace place) = .ok (place, e) := by
  have hnames := t.isName_of_at? h
  have hparts := FilePath.parts_ofPlace fun n hn => (hnames n hn).no_slash
  have hempty : ¬ (FilePath.ofPlace place).text.isEmpty = true := by
    rw [String.isEmpty_iff, ← String.toList_inj]
    simp [FilePath.ofPlace]
  refine t.find_eq_ok_iff.2 ⟨?_, h⟩
  have hroot : t.locate [] [""] = .ok [] := t.locate_empty.2 ⟨t.at?_root, rfl⟩
  unfold FileTree.place
  rw [if_neg hempty, if_pos (FilePath.isAbsolute_ofPlace place), hparts]
  change t.locate [] ([""] ++ _) = _
  rw [locate_append, hroot]
  change t.locate [] (if place = [] then [""] else place) = _
  split
  · next hnil => rw [hroot, hnil]
  · exact t.locate_names h

theorem isDirectory_iff {t : FileTree} {p : FilePath} :
    t.isDirectory p = true ↔ ∃ q, t.find p = .ok (q, .directory) := by
  unfold isDirectory
  split
  · next q hq => exact iff_of_true rfl ⟨q, hq⟩
  · next hne => exact iff_of_false (by simp) fun ⟨q, hq⟩ => hne q hq

theorem isFile_iff {t : FileTree} {p : FilePath} :
    t.isFile p = true ↔ ∃ q bytes, t.find p = .ok (q, .file bytes) := by
  unfold isFile
  split
  · next q bytes hq => exact iff_of_true rfl ⟨q, bytes, hq⟩
  · next hne => exact iff_of_false (by simp) fun ⟨q, bytes, hq⟩ => hne q bytes hq

theorem normalized_of_find {t : FileTree} {p : FilePath} {q : Place} {e : Entry}
    (h : t.find p = .ok (q, e)) : t.normalized p = .ofPlace q := by
  simp [normalized, canonical, h, Except.map]

/-! ## Names inside directories -/

/-- The place where the pieces of a path are followed from. -/
def base (t : FileTree) (p : FilePath) : Place := if p.isAbsolute then [] else t.current

theorem base_congr {t u : FileTree} {p : FilePath} (h : u.current = t.current) :
    u.base p = t.base p := by
  unfold base
  rw [h]

theorem place_eq_locate (t : FileTree) {p : FilePath} (hne : ¬ p.text.isEmpty = true) :
    t.place p = t.locate (t.base p) p.parts := by
  unfold FileTree.place base
  rw [if_neg hne]
  split <;> rfl

theorem base_join (t : FileTree) {p q : FilePath} (hne : ¬ p.text.isEmpty = true)
    (hq : q.isAbsolute = false) : t.base (p.join q) = t.base p := by
  obtain ⟨s, hs⟩ := p.exists_text_join hq
  cases hlist : p.text.toList with
  | nil => exact absurd (by simpa using hlist) hne
  | cons c cs => simp [base, FilePath.isAbsolute, hs, hlist]

theorem not_isEmpty_join {p q : FilePath} (hne : ¬ p.text.isEmpty = true)
    (hq : q.isAbsolute = false) : ¬ (p.join q).text.isEmpty = true := by
  obtain ⟨s, hs⟩ := p.exists_text_join hq
  simp_all

/-- Something is looked up in a directory only. -/
theorem directory_of_locate (t : FileTree) {d q : Place} {ps : List String} (hps : ps ≠ [])
    (h : t.locate d ps = .ok q) : t.at? d = some .directory := by
  cases ps with
  | nil => exact absurd rfl hps
  | cons piece r =>
    unfold locate at h
    split at h
    · simp at h
    · simp at h
    · next hd => exact hd

/-- **A path inside a directory.** -/
theorem place_join_iff (t : FileTree) {p q : FilePath} {place : Place}
    (hne : ¬ p.text.isEmpty = true) (hq : q.isAbsolute = false) :
    t.place (p.join q) = .ok place ↔
      ∃ d, t.find p = .ok (d, .directory) ∧ t.locate d q.parts = .ok place := by
  rw [t.place_eq_locate (not_isEmpty_join hne hq), t.base_join hne hq]
  simp only [find_eq_ok_iff, t.place_eq_locate hne]
  have hdirectory : ∀ {d}, t.locate d q.parts = .ok place → t.at? d = some .directory :=
    t.directory_of_locate q.parts_ne_nil
  rcases FilePath.parts_join hne hq with hparts | ⟨ps, hp, hparts⟩
  · rw [hparts, locate_append_iff]
    constructor
    · rintro ⟨d, hd, hplace⟩
      exact ⟨d, ⟨hd, hdirectory hplace⟩, hplace⟩
    · rintro ⟨d, ⟨hd, -⟩, hplace⟩
      exact ⟨d, hd, hplace⟩
  · rw [hp, hparts]
    simp only [locate_append_iff, locate_empty]
    constructor
    · rintro ⟨d, hd, hplace⟩
      exact ⟨d, ⟨⟨d, hd, hdirectory hplace, rfl⟩, hdirectory hplace⟩, hplace⟩
    · rintro ⟨d, ⟨⟨d', hd, -, rfl⟩, -⟩, hplace⟩
      exact ⟨d, hd, hplace⟩

/-- **A name inside a directory.** -/
theorem place_child_iff (t : FileTree) {p : FilePath} {q : Place} {name : String}
    (hne : ¬ p.text.isEmpty = true) (hn : IsName name) :
    t.place (p.child name) = .ok q ↔
      fits name = true ∧ ∃ d, t.find p = .ok (d, .directory) ∧ q = d ++ [name] := by
  rw [FilePath.child, t.place_join_iff hne (FilePath.isAbsolute_name hn), FilePath.parts_name hn]
  simp only [locate_singleton t hn]
  constructor
  · rintro ⟨d, hd, -, hfits, rfl⟩
    exact ⟨hfits, d, hd, rfl⟩
  · rintro ⟨hfits, d, hd, rfl⟩
    exact ⟨d, hd, (t.find_eq_ok_iff.1 hd).2, hfits, rfl⟩

/-- A path that leads somewhere has a text. -/
theorem not_isEmpty_of_find (t : FileTree) {p : FilePath} {place : Place} {e : Entry}
    (h : t.find p = .ok (place, e)) : ¬ p.text.isEmpty = true := by
  intro hempty
  simp [find_eq_ok_iff, FileTree.place, hempty] at h

/-- The place of a name inside a directory. -/
theorem place_child (t : FileTree) {p : FilePath} {d : Place} {name : String}
    (h : t.find p = .ok (d, .directory)) (hn : IsEntryName name) :
    t.place (p.child name) = .ok (d ++ [name]) :=
  (t.place_child_iff (t.not_isEmpty_of_find h) hn.toIsName).2 ⟨hn.fits, d, h, rfl⟩

/-- There is no other place for it. -/
theorem eq_of_place_child (t : FileTree) {p : FilePath} {d q : Place} {name : String}
    (h : t.find p = .ok (d, .directory)) (hn : IsName name) (hq : t.place (p.child name) = .ok q) :
    q = d ++ [name] := by
  obtain ⟨-, d', hd', rfl⟩ := (t.place_child_iff (t.not_isEmpty_of_find h) hn).1 hq
  rw [(Prod.mk.inj (Except.ok.inj (h.symm.trans hd'))).1]

theorem find_child (t : FileTree) {p : FilePath} {d : Place} {name : String} {e : Entry}
    (h : t.find p = .ok (d, .directory)) (hn : IsName name) :
    t.find (p.child name) = .ok (d ++ [name], e) ↔ t.at? (d ++ [name]) = some e := by
  rw [find_eq_ok_iff]
  refine ⟨And.right, fun hat => ⟨t.place_child h ⟨hn, ?_⟩, hat⟩⟩
  exact (t.isEntryName_of_at? hat name (by simp)).fits

/-- The last piece of a path inside a directory. -/
theorem exists_parts_child (p : FilePath) {name : String} (hn : IsName name) :
    ∃ ps, (p.child name).parts = ps ++ [name] := by
  by_cases hne : p.text.isEmpty = true
  · refine ⟨[], ?_⟩
    unfold FilePath.child FilePath.join
    rw [if_neg (by simp [FilePath.isAbsolute_name hn]), if_pos (by simp [hne])]
    obtain rfl : p = ⟨""⟩ := by
      cases p
      simpa using hne
    simpa using FilePath.parts_name hn
  · rw [FilePath.child]
    rcases FilePath.parts_join hne (FilePath.isAbsolute_name hn) with hparts | ⟨ps, -, hparts⟩
    · exact ⟨p.parts, by rw [hparts, FilePath.parts_name hn]⟩
    · exact ⟨ps, by rw [hparts, FilePath.parts_name hn]⟩

/-- The last name of a path inside a directory. -/
theorem fileName?_child (p : FilePath) {name : String} (hn : IsName name) :
    (p.child name).fileName? = some name := by
  obtain ⟨ps, hps⟩ := exists_parts_child p hn
  exact FilePath.fileName?_of_parts (n := 0) hn (by simpa using hps)

/-- A name is its own last name. -/
theorem fileName?_name {name : String} (hn : IsName name) : FilePath.fileName? ⟨name⟩ = some name := by
  have hparts : FilePath.parts ⟨name⟩ = [] ++ [name] ++ List.replicate 0 "" := FilePath.parts_name hn
  exact FilePath.fileName?_of_parts hn hparts

/-- **Names inside a directory are told apart.** -/
theorem child_inj (p : FilePath) {m n : String} (hm : IsName m) (hn : IsName n)
    (h : p.child m = p.child n) : m = n := by
  have hlast := congrArg FilePath.fileName? h
  rw [fileName?_child p hm, fileName?_child p hn] at hlast
  exact Option.some.inj hlast

/-! ## Where paths lead -/

/-- The place that pieces lead to, if they lead anywhere. -/
def leadsTo : Place → List String → Place
  | place, [] => place
  | place, piece :: r =>
    match FilePath.step? piece with
    | some .up => leadsTo place.dropLast r
    | some (.name name) => leadsTo (place ++ [name]) r
    | _ => leadsTo place r

theorem leadsTo_append (place : Place) (ps qs : List String) :
    leadsTo place (ps ++ qs) = leadsTo (leadsTo place ps) qs := by
  induction ps generalizing place with
  | nil => rfl
  | cons piece r ih =>
    simp only [List.cons_append, leadsTo]
    split <;> exact ih _

/-- The pieces of a path are followed one after the other. -/
theorem leadsTo_cons (place : Place) (piece : String) (ps : List String) :
    leadsTo place (piece :: ps) = leadsTo (leadsTo place [piece]) ps :=
  leadsTo_append place [piece] ps

/-- **From a directory, a piece is followed to where it leads**, unless it is too long. -/
theorem locate_cons (t : FileTree) {place : Place} {piece : String} {r : List String}
    (h : t.at? place = some .directory) : t.locate place (piece :: r) =
      if fits piece then t.locate (leadsTo place [piece]) r else .error .nameTooLong := by
  simp only [locate, h, leadsTo]
  cases FilePath.step? piece with
  | none => rfl
  | some c => cases c <;> rfl

/-- **Pieces lead to one place in every tree**, if they lead anywhere. -/
theorem eq_leadsTo (t : FileTree) {start q : Place} {ps : List String}
    (h : t.locate start ps = .ok q) : q = leadsTo start ps := by
  induction ps generalizing start with
  | nil => simpa [locate, leadsTo, eq_comm] using h
  | cons piece r ih =>
    rw [t.locate_cons (t.directory_of_locate (List.cons_ne_nil _ _) h)] at h
    split at h
    · rw [leadsTo_cons]
      exact ih h
    · simp at h

/-- A piece that leads to where something stands is not too long. -/
theorem fits_of_leadsTo (t : FileTree) {place : Place} {piece : String} {e : Entry}
    (h : t.at? (leadsTo place [piece]) = some e) : fits piece = true := by
  by_cases hname : ∃ s, FilePath.step? piece = some (.name s)
  · obtain ⟨s, hstep⟩ := hname
    obtain rfl := FilePath.eq_of_step?_name hstep
    simp only [leadsTo, hstep] at h
    exact (t.isEntryName_of_at? h _ (by simp)).fits
  · exact FilePath.fits_of_step? (not_exists.1 hname)

/-- What contains a directory is a directory. -/
theorem directory_above (t : FileTree) {place q : Place} (hbelow : place <+: q)
    (h : t.at? q = some .directory) : t.at? place = some .directory := by
  obtain ⟨rest, rfl⟩ := hbelow
  induction rest using List.reverseRecOn with
  | nil => simpa using h
  | append_singleton rest name ih =>
    rw [← List.append_assoc] at h
    exact ih (t.at?_parent h)

/-- Pieces that do not go up lead down. -/
theorem step?_ne_up {piece : String} (h : piece ≠ "..") : FilePath.step? piece ≠ some .up := by
  unfold FilePath.step?
  rw [if_neg h]
  split <;> simp

theorem prefix_leadsTo {start : Place} {ps : List String} (hup : ".." ∉ ps) :
    start <+: leadsTo start ps := by
  induction ps generalizing start with
  | nil => exact List.prefix_rfl
  | cons piece r ih =>
    obtain ⟨hpiece, hr⟩ := not_or.1 (mt List.mem_cons.2 hup)
    unfold leadsTo
    split
    · next hstep => exact absurd hstep (step?_ne_up (Ne.symm hpiece))
    · exact (List.prefix_append _ _).trans (ih hr)
    · exact ih hr

/-- **And they lead to each directory that stands there.** -/
theorem locate_of_directory (t : FileTree) {start : Place} {ps : List String} (hup : ".." ∉ ps)
    (h : t.at? (leadsTo start ps) = some .directory) :
    t.locate start ps = .ok (leadsTo start ps) := by
  induction ps generalizing start with
  | nil => rfl
  | cons piece r ih =>
    obtain ⟨-, hr⟩ := not_or.1 (mt List.mem_cons.2 hup)
    have hstart : t.at? start = some .directory := t.directory_above (prefix_leadsTo hup) h
    rw [leadsTo_cons] at h ⊢
    have hfirst : t.at? (leadsTo start [piece]) = some .directory := t.directory_above (prefix_leadsTo hr) h
    rw [t.locate_cons hstart, if_pos (t.fits_of_leadsTo hfirst)]
    exact ih hr h

/-- The place that a path leads to, if it leads anywhere. -/
def leads (t : FileTree) (p : FilePath) : Place := leadsTo (t.base p) p.parts

/-- **A path leads to one place**, whatever stands where. -/
theorem eq_leads (t : FileTree) {p : FilePath} {q : Place} (h : t.place p = .ok q) :
    q = t.leads p := by
  have hne : ¬ p.text.isEmpty = true := by
    intro he
    simp [FileTree.place, he] at h
  rw [t.place_eq_locate hne] at h
  exact t.eq_leadsTo h

/-- **A directory is found** where the path leads to one. -/
def FindsDirectory (t : FileTree) (p : FilePath) : Prop :=
  t.at? (t.leads p) = some .directory → t.find p = .ok (t.leads p, .directory)

/-- It is found by a path that does not go up. -/
theorem findsDirectory_of_not_up (t : FileTree) {p : FilePath} (hne : ¬ p.text.isEmpty = true)
    (hup : ".." ∉ p.parts) : t.FindsDirectory p := by
  intro h
  refine t.find_eq_ok_iff.2 ⟨?_, h⟩
  rw [t.place_eq_locate hne]
  exact t.locate_of_directory hup h

/-- Behind a directory that is there, a path leads where its own pieces lead. -/
theorem leads_join (t : FileTree) {p q : FilePath} {d : Place} (hp : t.find p = .ok (d, .directory))
    (hq : q.isAbsolute = false) : t.leads (p.join q) = leadsTo d q.parts := by
  have hplace := (t.find_eq_ok_iff.1 hp).1
  have hne : ¬ p.text.isEmpty = true := by
    intro he
    simp [FileTree.place, he] at hplace
  rw [t.eq_leads hplace]
  unfold leads
  rw [t.base_join hne hq]
  rcases FilePath.parts_join hne hq with hparts | ⟨ps, hps, hparts⟩
  · rw [hparts, leadsTo_append]
  · have hend : ∀ place, leadsTo place [""] = place := fun place => rfl
    rw [hparts, hps, leadsTo_append, leadsTo_append, hend]

theorem find_join (t : FileTree) {p q : FilePath} {d place : Place} {e : Entry}
    (hp : t.find p = .ok (d, .directory)) (hq : q.isAbsolute = false)
    (hplace : t.locate d q.parts = .ok place) (he : t.at? place = some e) :
    t.find (p.join q) = .ok (place, e) := by
  have hne : ¬ p.text.isEmpty = true := by
    intro hempty
    simp [find_eq_ok_iff, FileTree.place, hempty] at hp
  exact t.find_eq_ok_iff.2 ⟨(t.place_join_iff hne hq).2 ⟨d, hp, hplace⟩, he⟩

/-- And it is found by a path that does not go up from a directory which is there. -/
theorem findsDirectory_join (t : FileTree) {p q : FilePath} (hp : t.isDirectory p = true)
    (hq : q.isAbsolute = false) (hup : ".." ∉ q.parts) : t.FindsDirectory (p.join q) := by
  obtain ⟨d, hd⟩ := isDirectory_iff.1 hp
  intro h
  rw [t.leads_join hd hq] at h ⊢
  exact t.find_join hd hq (t.locate_of_directory hup h) h

/-! ## Listings -/

theorem append_mem_entries {t : FileTree} {d : Place} {name : String} :
    d ++ [name] ∈ t.entries ↔ (t.at? (d ++ [name])).isSome = true := by
  rw [t.at?_of_ne (by simp), Std.ExtTreeMap.mem_iff_isSome_getElem?]

/-- The names inside a directory are those of the places below it. -/
theorem mem_namesIn {t : FileTree} {d : Place} {name : String} :
    name ∈ t.namesIn d ↔ (t.at? (d ++ [name])).isSome = true := by
  rw [← append_mem_entries, namesIn, List.mem_filterMap]
  constructor
  · rintro ⟨k, hk, hname⟩
    split at hname
    · next hdrop =>
      rw [← hdrop, List.dropLast_append_getLast? name hname]
      exact Std.ExtTreeMap.mem_keys.1 hk
    · simp at hname
  · intro h
    exact ⟨d ++ [name], Std.ExtTreeMap.mem_keys.2 h, by simp⟩

theorem isEntryName_of_mem_namesIn {t : FileTree} {d : Place} {name : String}
    (h : name ∈ t.namesIn d) : IsEntryName name := by
  obtain ⟨e, he⟩ := Option.isSome_iff_exists.1 (mem_namesIn.1 h)
  exact t.isEntryName_of_at? he name (by simp)

theorem isName_of_mem_namesIn {t : FileTree} {d : Place} {name : String}
    (h : name ∈ t.namesIn d) : IsName name := (isEntryName_of_mem_namesIn h).toIsName

/-- The keys of a map stand in their order, each once. -/
instance : Std.Antisymm fun a b : Place => compare a b = .lt where
  antisymm a b hab hba := by
    rw [Std.OrientedCmp.gt_of_lt hab] at hba
    exact absurd hba (by decide)

instance : Std.Irrefl fun a b : Place => compare a b = .lt where
  irrefl a h := by
    have heq : compare a a = .eq := Std.ReflCmp.compare_self
    rw [heq] at h
    exact absurd h (by decide)

/-- Places below one place stand in the order of what is below it. -/
theorem compare_append (place a b : Place) : compare (place ++ a) (place ++ b) = compare a b := by
  induction place with
  | nil => rfl
  | cons name r ih =>
    have hname : compare name name = .eq := Std.ReflCmp.compare_self
    rw [List.cons_append, List.cons_append, List.compare_cons_cons, hname, ih]
    rfl

/-- **The names inside a directory stand in order.** -/
theorem pairwise_namesIn (t : FileTree) (place : Place) : (t.namesIn place).Pairwise (· < ·) := by
  refine List.Pairwise.filterMap _ ?_ Std.ExtTreeMap.ordered_keys
  intro k k' hlt name hname name' hname'
  have hsplit : ∀ {k : Place} {name : String},
      (if k.dropLast = place then k.getLast? else none) = some name → k = place ++ [name] := by
    intro k name h
    split at h
    · next hplace => rw [← hplace, List.dropLast_append_getLast? name h]
    · simp at h
  rw [hsplit hname, hsplit hname', compare_append, List.compare_cons_cons, List.compare_nil_nil,
    Ordering.then_eq] at hlt
  exact compareOfLessAndEq_eq_lt.1 hlt

/-- So each is listed once. -/
theorem nodup_namesIn (t : FileTree) (place : Place) : (t.namesIn place).Nodup := by
  refine (t.pairwise_namesIn place).imp fun hlt => ?_
  rintro rfl
  exact String.lt_irrefl _ hlt

/-- **What a directory lists depends only on where something stands.** -/
theorem namesIn_congr {t u : FileTree} {d : Place}
    (h : ∀ name, (t.at? (d ++ [name])).isSome = (u.at? (d ++ [name])).isSome) :
    t.namesIn d = u.namesIn d := by
  have hkeys : ∀ v : FileTree, v.namesIn d =
      (v.entries.keys.filter fun k => k.dropLast = d).filterMap List.getLast? := by
    intro v
    rw [List.filterMap_filter]
    simp [namesIn]
  rw [hkeys, hkeys]
  congr 1
  refine List.Pairwise.eq_of_mem_iff (t.entries.ordered_keys.filter _)
    (u.entries.ordered_keys.filter _) fun k => ?_
  simp only [List.mem_filter, Std.ExtTreeMap.mem_keys, decide_eq_true_eq]
  rcases List.eq_nil_or_concat k with rfl | ⟨ks, name, rfl⟩
  · simp [t.root_not_mem, u.root_not_mem]
  · refine and_congr_left fun hdrop => ?_
    obtain rfl : ks = d := by simpa using hdrop
    rw [List.concat_eq_append, append_mem_entries, append_mem_entries, h]

end FileTree

end ModelPool
