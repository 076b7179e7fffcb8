import Mathlib.Data.List.Infix
import ModelPool.Files.Texts
import ModelPool.Proofs.Pool.Clearing

/-!
# Proofs/Pool/Staging — clearing the pool is done or leaves the tree as it is

    nothing, a file or a tree at  x/pool   ──▸   x/  x/pool/  x/pool/temp.rs
    a file at  x                           ──▸   the same tree, and an error
    nothing at  x, a long name at its end  ──▸   x/, and an error

A path that does not go up is followed down to its place, so all that can be in the way is a file above it.
The old pool is then found or nothing stands there, and after it has gone its directory can be made.  A file
in the way is met before anything is changed.  A name that is too long is met only when the directories above
it have been made.

* `stage_of_free` — the pool is cleared where nothing is in the way.
* `staged_of_stage` — what stands where then.
* `stage_of_not_free` — the tree stays as it is elsewhere.
* `stage_of_not_fits` — directories are left above a name that is too long.
* `stage_all_or_nothing` — the four together.
-/

namespace ModelPool

namespace FileTree

variable {t u : FileTree} {p : FilePath}

/-! ## The way to a pool -/

/-- **The way to the place of a path is free**: it starts in a directory, and a file stands at its end at most,
where the path may not end in a slash then. -/
structure IsFree (t : FileTree) (p : FilePath) : Prop where
  base : t.at? (t.base p) = some .directory
  above : ∀ place bytes, t.at? place = some (.file bytes) → place <+: t.leads p →
    place = t.leads p ∧ p.text.toList.getLast? ≠ some '/'

section Free

variable (hp : p.EndsInName) (hup : .up ∉ p.components)

include hup

/-- The path passes no place below the one that it leads to. -/
theorem prefix_of_mem_passes {place : Place} (h : place ∈ t.passes p) : place <+: t.leads p := by
  rw [leads, ← leadsTo_spelled]
  exact prefix_of_mem_trail (FilePath.up_not_mem_spelled hup) h

/-- Nothing stands behind a name that is too long. -/
theorem at?_leads_of_not_fits (hlong : ¬ p.Fits) : t.at? (t.leads p) = none := by
  rw [leads, ← leadsTo_spelled]
  cases hat : t.at? (leadsTo (t.base p) p.spelled) with
  | none => rfl
  | some e => exact absurd (fits_spelled.1 (fits_of_leadsTo_down (FilePath.up_not_mem_spelled hup) hat)) hlong

include hp

/-- What stands at the end of a free way is found. -/
theorem IsFree.findsEntry (h : t.IsFree p) : t.FindsEntry p := by
  intro e hat
  cases e with
  | directory =>
    exact t.findsDirectory_of_not_up hp.not_isEmpty (FilePath.up_not_mem_parts hup) hat
  | file bytes =>
    obtain ⟨-, hslash⟩ := h.above _ _ hat List.prefix_rfl
    have hne := hp.not_isEmpty
    have hups := FilePath.up_not_mem_parts hup
    obtain ⟨ps, name, hparts, hname⟩ := hp
    rw [FilePath.withoutEndSlashes_of_getLast? hslash] at hparts
    rw [hparts] at hups
    refine t.find_eq_ok_iff.2 ⟨?_, hat⟩
    rw [leads, hparts] at hat
    rw [t.place_eq_locate hne, leads, hparts]
    exact t.locate_of_some (fun hmem => hups (List.mem_append_left _ hmem)) hname hat

/-- **The old pool goes** where the way is free. -/
theorem IsFree.cleared_eq (hfits : p.Fits) (h : t.IsFree p) : t.cleared p = .ok (t.removeBelow (t.leads p)) := by
  refine (cleared_cases hp (h.findsEntry hp hup)).resolve_right ?_
  rintro ⟨hnone, e, he, hplace, -⟩
  rw [t.place_eq_locate hp.not_isEmpty] at hplace
  refine he (eq_notFound_of_locate (FilePath.up_not_mem_parts hup) (fits_of_mem_parts hfits)
    (fun place bytes _ hbelow hfile => ?_) hplace)
  obtain ⟨rfl, -⟩ := h.above place bytes hfile hbelow
  exact absurd (hnone.symm.trans hfile) (by simp)

/-- And its directory can be made then. -/
theorem IsFree.canMake (hfits : p.Fits) (h : t.IsFree p) :
    (t.removeBelow (t.leads p)).CanMake (t.base p) p.spelled := by
  have hroot := leads_ne_nil hp t
  have hsame := SameOutside.removeBelow t hroot
  have hcan := canMake_iff (t := t.removeBelow (t.leads p)) hp hup
  rw [base_congr hsame.current, hsame.leads_eq] at hcan
  refine hcan.2 ⟨?_, hfits, fun place bytes hplace hfile => ?_⟩
  · rw [hsame.at?_eq _ (not_leads_prefix_base hp hup), h.base]
  · rw [t.at?_removeBelow hroot] at hfile
    split at hfile
    · simp at hfile
    · next hbefore =>
      obtain ⟨rfl, -⟩ := h.above place bytes hfile hplace
      exact hbefore List.prefix_rfl

/-- **The pool is cleared where nothing is in the way.** -/
theorem stage_of_free (hfits : p.Fits) (h : t.IsFree p) :
    ∃ u, t.stage p = (u, .ok (p.child placeholderFile)) := by
  have hroot := leads_ne_nil hp t
  have hsame := SameOutside.removeBelow t hroot
  obtain ⟨made, hmake⟩ := (decides_makeDirectories hp (t.removeBelow (t.leads p))).exists_iff.2
    (base_congr hsame.current ▸ h.canMake hp hup hfits)
  have hclear := h.cleared_eq hp hup hfits
  have hfind := (fills_stage hp hclear hmake).1
  have hmade := (decides_makeDirectories hp _).of_eq_ok hmake
  have hplace := made.place_child hfind isEntryName_placeholderFile
  have hfresh : made.at? (t.leads p ++ [placeholderFile]) ≠ some .directory := by
    have hpassed : t.leads p ++ [placeholderFile] ∉ trail ((t.removeBelow (t.leads p)).base p) p.spelled := by
      intro hmem
      have hlonger := (prefix_of_mem_passes hup hmem).length_le
      rw [hsame.leads_eq] at hlonger
      exact absurd hlonger (by simp)
    rw [hmade.at?_eq, if_neg hpassed, t.at?_removeBelow hroot, if_pos (List.prefix_append _ _)]
    simp
  obtain ⟨u, hwrite⟩ := exists_writeFile (placeholderSource (poolName p)).toUTF8 hplace (by simp)
    (by simpa using (made.find_eq_ok_iff.1 hfind).2) hfresh
  refine ⟨u, ?_⟩
  simp only [stage, hclear, hmake, hwrite]

/-! ## A file in the way -/

/-- A file in the way is met, also by the slash at the end of a path. -/
theorem place_of_file {place : Place} {bytes : ByteArray} (hfile : t.at? place = some (.file bytes))
    (hplace : place <+: t.leads p) (hbase : t.at? (t.base p) = some .directory)
    (hway : place = t.leads p → p.text.toList.getLast? = some '/') :
    t.place p = .error .notDirectory := by
  have hups := FilePath.up_not_mem_parts hup
  have hdown : t.base p <+: place := by
    rcases List.prefix_or_prefix_of_prefix (prefix_leadsTo hups) hplace with hdown | habove
    · exact hdown
    · exact absurd ((t.directory_above habove hbase).symm.trans hfile) (by simp)
  rw [t.place_eq_locate hp.not_isEmpty]
  rcases locate_of_file_above hups hdown hplace hfile with herror | ⟨hend, hlocate⟩
  · exact herror
  · -- the empty piece behind the last slash asks for a directory
    obtain ⟨cs, hcs⟩ := List.getLast?_eq_some_iff.1 (hway hend)
    have hslash : p.parts = (pieces cs).map String.ofList ++ [""] := by
      rw [FilePath.parts, hcs, pieces_append_slash, List.map_append]
      rfl
    rw [hslash, locate_append_iff] at hlocate
    obtain ⟨d, -, hlast⟩ := hlocate
    obtain ⟨hdir, rfl⟩ := t.locate_empty.1 hlast
    exact absurd (hdir.symm.trans hfile) (by simp)

/-- Without a base there is nothing to remove, and nothing is made. -/
theorem stage_of_base_missing (hbase : t.at? (t.base p) ≠ some .directory) :
    ∃ cause, t.stage p = (t, .error (.remove p cause)) ∨ t.stage p = (t, .error (.create p cause)) := by
  cases hclear : t.cleared p with
  | error e => exact ⟨e, .inl (stage_of_clear_error hclear)⟩
  | ok bare =>
    have hbare : bare = t := by
      unfold cleared at hclear
      split at hclear
      · next found hfind =>
        obtain ⟨place, e⟩ := found
        obtain ⟨hplace, hat⟩ := t.find_eq_ok_iff.1 hfind
        rw [t.eq_leads hplace] at hat
        have hdown : t.base p <+: t.leads p := prefix_leadsTo (FilePath.up_not_mem_parts hup)
        have hne : t.base p ≠ t.leads p := fun heq =>
          not_leads_prefix_base (t := t) hp hup (by rw [heq])
        exact absurd (directory_of_isPrefix hat hdown hne) hbase
      · exact (Except.ok.inj hclear).symm
      · simp at hclear
    subst hbare
    cases hmake : bare.makeDirectories p with
    | error e =>
      refine ⟨e, .inr ?_⟩
      rw [stage_of_make_error hclear hmake, leftByDirectories_eq_self hp hbase]
    | ok made =>
      have hcan := ((decides_makeDirectories hp bare).with_condition.of_eq_ok hmake).1
      exact absurd ((canMake_iff hp hup).1 hcan).1 hbase

/-- **Where something is in the way, the tree stays as it is.** -/
theorem stage_of_not_free (h : ¬ t.IsFree p) :
    ∃ cause, t.stage p = (t, .error (.remove p cause)) ∨ t.stage p = (t, .error (.create p cause)) := by
  by_cases hbase : t.at? (t.base p) = some .directory
  · obtain ⟨place, bytes, hfile, hplace, hway⟩ : ∃ place bytes, t.at? place = some (.file bytes) ∧
        place <+: t.leads p ∧ (place = t.leads p → p.text.toList.getLast? = some '/') := by
      by_contra hnone
      push Not at hnone
      exact h ⟨hbase, hnone⟩
    have hfind : t.find p = .error .notDirectory := by
      unfold find
      rw [place_of_file hp hup hfile hplace hbase hway]
      rfl
    have hclear : t.cleared p = .error .notDirectory := by rw [cleared, hfind]
    exact ⟨_, .inl (stage_of_clear_error hclear)⟩
  · exact stage_of_base_missing hp hup hbase

/-! ## A name that is too long -/

/-- **Where a name is too long, the pool cannot be cleared**, but directories above its place may have been
made. -/
theorem stage_of_not_fits (hlong : ¬ p.Fits) : ∃ u cause, AddsAlong (t.leads p).inits t u ∧
    (t.stage p = (u, .error (.remove p cause)) ∨ t.stage p = (u, .error (.create p cause))) := by
  have hnone := at?_leads_of_not_fits (t := t) hup hlong
  rcases cleared_cases hp (findsEntry_of_none hnone) with hclear | ⟨-, e, -, -, hclear⟩
  · rw [removeBelow_eq_self (leads_ne_nil hp t) hnone] at hclear
    cases hmake : t.makeDirectories p with
    | error e =>
      exact ⟨_, e, (addsAlong_leftByDirectories hp t).mono fun place hmem =>
        (List.mem_inits _ _).2 (prefix_of_mem_passes hup hmem), .inr (stage_of_make_error hclear hmake)⟩
    | ok made =>
      have hcan := ((decides_makeDirectories hp t).with_condition.of_eq_ok hmake).1
      exact absurd ((canMake_iff hp hup).1 hcan).2.1 hlong
  · exact ⟨t, e, .refl _ t, .inl (stage_of_clear_error hclear)⟩

/-! ## What stands where -/

/-- **The pool has been cleared**: a directory stands at the place of its path, where the path leads, and
nothing in it but the placeholder.  Above it, there are directories which have stood there or are new. -/
structure Staged (t : FileTree) (p : FilePath) (u : FileTree) : Prop where
  current : u.current = t.current
  directory : u.find p = .ok (t.leads p, .directory)
  placeholder : u.find (p.child placeholderFile) =
    .ok (t.leads p ++ [placeholderFile], .file (placeholderSource (poolName p)).toUTF8)
  inside : ∀ rest, rest ≠ [] → rest ≠ [placeholderFile] → u.at? (t.leads p ++ rest) = none
  above : ∀ place, place <+: t.leads p → place ≠ t.leads p → u.at? place = some .directory ∧
    (t.at? place = some .directory ∨ t.at? place = none)
  elsewhere : ∀ place, ¬ place <+: t.leads p → ¬ t.leads p <+: place → u.at? place = t.at? place

/-- **What stands where when the pool has been cleared.** -/
theorem staged_of_stage {placeholder : FilePath} (h : t.stage p = (u, .ok placeholder)) : Staged t p u := by
  obtain ⟨hfind, hconsists⟩ := consists_of_stage hp h
  have hkept := keptOutside_stage hp t
  rw [h] at hkept
  refine ⟨hkept.current, hfind, ?_, fun rest hrest hother => ?_, fun place hplace hne => ?_,
    fun place habove hbelow => ?_⟩
  · exact (u.find_child hfind isName_placeholderFile).2
      (hconsists.file (placeholderEntry p) List.mem_cons_self)
  · rw [hconsists.other rest hrest (List.forall_mem_singleton.2 hother)]
    exact remains_eq_none hp h hup hrest
  · have hdir := u.directory_above hplace (u.find_eq_ok_iff.1 hfind).2
    refine ⟨hdir, ?_⟩
    have hbefore : ¬ t.leads p <+: place := fun hbelow =>
      hne (hplace.eq_of_length (le_antisymm hplace.length_le hbelow.length_le))
    rcases hkept.at?_eq place hbefore with hsame | ⟨hnone, -⟩
    · exact .inl (hsame.symm.trans hdir)
    · exact .inr hnone
  · rcases hkept.at?_eq place hbelow with hsame | ⟨-, -, hmem⟩
    · exact hsame
    · exact absurd (prefix_of_mem_passes hup hmem) habove

/-- **Clearing it again changes nothing.** -/
theorem stage_again (hfits : p.Fits) (h : t.IsFree p) : (t.stage p).1.stage p = t.stage p := by
  obtain ⟨u, hu⟩ := stage_of_free hp hup hfits h
  obtain ⟨bare, made, hclear, hmake, -⟩ := stage_eq_ok hu
  refine stage_of_fills hp ((h.findsEntry hp hup).finds ?_) (.inl rfl)
  rw [hclear]
  change (bare.makeDirectories p).isOk = true
  rw [hmake]
  rfl

end Free

/-- **Clearing the pool is done or leaves the tree as it is**, if its path ends in a name, does not go up, and
has no name that is too long.  It is done exactly where the way is free: then the path leads to a directory which
holds nothing but the placeholder of its last name, whatever has stood there, and all else is as before but for
the directories above that have been missing.  Clearing the pool again gives the same tree and the same
placeholder.  Where a name is too long it is never done, and at most directories above are new. -/
theorem stage_all_or_nothing (hp : p.EndsInName) (hup : .up ∉ p.components) (t : FileTree) :
    (∃ name, IsName name ∧ p.fileName? = some name ∧ poolName p = sanitizedName name) ∧
      (p.Fits → t.IsFree p → ∃ u, t.stage p = (u, .ok (p.child placeholderFile)) ∧ Staged t p u ∧
        u.stage p = (u, .ok (p.child placeholderFile))) ∧
      (¬ t.IsFree p → ∃ cause,
        t.stage p = (t, .error (.remove p cause)) ∨ t.stage p = (t, .error (.create p cause))) ∧
      (¬ p.Fits → ∃ u cause, AddsAlong (t.leads p).inits t u ∧
        (t.stage p = (u, .error (.remove p cause)) ∨ t.stage p = (u, .error (.create p cause)))) := by
  refine ⟨?_, fun hfits h => ?_, stage_of_not_free hp hup, stage_of_not_fits hp hup⟩
  · obtain ⟨name, hname, hfile⟩ := hp.exists_fileName?
    exact ⟨name, hname, hfile, by rw [poolName, hfile, Option.getD_some]⟩
  · obtain ⟨u, hu⟩ := stage_of_free hp hup hfits h
    have hagain := stage_again hp hup hfits h
    rw [hu] at hagain
    exact ⟨u, hu, staged_of_stage hp hup hu, hagain⟩

/-- **A name that is too long behind directories that are missing**: these are made, and stay. -/
theorem stage_of_long_name {ps : List String} {piece : String} (hp : p.EndsInName)
    (hspelled : p.spelled = ps ++ [piece]) (hlong : fits piece = false) (hclear : t.cleared p = .ok t)
    (hstart : t.at? (t.base p) = some .directory) (hcan : t.CanMake (t.base p) ps)
    (hmissing : ¬ t.Open (t.base p) ps) :
    ∃ u, Made t (trail (t.base p) ps) u ∧ t.stage p = (u, .error (.create p .nameTooLong)) := by
  have hself : Spells t.current p (t.base p) (ps ++ [piece]) := hspelled ▸ spells_self hp t
  have hmake : t.makeDirectory p = .error .notFound := by
    obtain ⟨e, he, hfails | rfl⟩ := locate_concat_of_not_open hmissing piece
    · exact absurd hcan (hfails.not_canMake hstart)
    · exact makeDirectory_of_error ((hself.place_eq t rfl).trans he)
  have hchain : Chain t.current (t.base p) p.above ps := (hspelled ▸ chain_self hp t).tail
  obtain ⟨u, hu⟩ := (decides_makeChain hchain t rfl).exists_iff.2 hcan
  have hmade := (decides_makeChain hchain t rfl).of_eq_ok hu
  have hfail : u.ensureDirectory p = .error .nameTooLong := by
    refine ensureDirectory_of_error (hmade.current ▸ hself) ?_
    rw [(hmade.open hstart).locate_concat, hlong]
    rfl
  refine ⟨u, hmade, ?_⟩
  have hfailed : t.makeDirectories p = .error .nameTooLong := by
    rw [makeDirectories, if_neg hp.not_isEmpty, makeChain, hmake]
    dsimp only
    rw [hu]
    exact hfail
  have hleft : t.leftByDirectories p = u := by
    rw [leftByDirectories, leftByChain, hmake]
    dsimp only
    rw [hu]
    rfl
  rw [stage_of_make_error hclear hfailed, hleft]

theorem isName_replicate (n : Nat) : IsName (.ofList (List.replicate (n + 3) 'a')) := by
  have hlong : ∀ s : String, s.toList.length < n + 3 → .ofList (List.replicate (n + 3) 'a') ≠ s := by
    rintro s hs rfl
    rw [String.toList_ofList, List.length_replicate] at hs
    exact absurd hs (Nat.lt_irrefl _)
  refine ⟨hlong _ (by simp), hlong _ (by simp), hlong _ (by simp), fun hslash => ?_⟩
  rw [String.toList_ofList] at hslash
  exact absurd (List.eq_of_mem_replicate hslash) (by decide)

/-- A name of too many letters. -/
def longName : String := .ofList (List.replicate 300 'a')

/-- And a path that ends in it. -/
def longPath : FilePath := ⟨"/new" ++ "/" ++ longName⟩

theorem isName_longName : IsName longName := isName_replicate 297

theorem parts_longPath : longPath.parts = ["", "new", longName] := by
  rw [longPath, FilePath.parts_append_slash, FilePath.parts_name isName_longName]
  rfl

theorem isAbsolute_longPath : longPath.isAbsolute = true :=
  FilePath.isAbsolute_iff.2 ⟨_, by simp, parts_longPath⟩

theorem components_longPath : longPath.components = [.root, .name "new", .name longName] := by
  have hnew : FilePath.step? "new" = some (.name "new") := by decide
  rw [FilePath.components, parts_longPath]
  simp [isAbsolute_longPath, hnew, FilePath.step?_name isName_longName]

theorem endsInName_longPath : longPath.EndsInName := by
  refine ⟨["", "new"], longName, ?_, isName_longName⟩
  have hsame := @FilePath.withoutEndSlashes_eq_self longPath ["", "new"] _ parts_longPath isName_longName.ne_empty
  rw [hsame, parts_longPath]
  rfl

/-- Where the directory before the name is missing, there is nothing to clear. -/
theorem cleared_longPath {t : FileTree} (h : t.at? ["new"] = none) : t.cleared longPath = .ok t := by
  have hlocate : t.locate [] ["", "new", longName] = .error .notFound := by
    rw [t.locate_cons t.at?_root, if_pos fits_empty]
    change t.locate [] ["new", longName] = _
    rw [t.locate_cons t.at?_root, if_pos (by decide)]
    exact t.locate_of_none (by simp) h
  have hplace : t.place longPath = .error .notFound := by
    rw [t.place_eq_locate endsInName_longPath.not_isEmpty, base, if_pos isAbsolute_longPath, parts_longPath,
      hlocate]
  simp [cleared, find, hplace, bind, Except.bind]

/-- **Clearing the pool can fail and change the tree**: at `/new` and the long name, the directory `new` is
made. -/
theorem not_forall_stage_all_or_nothing : ¬ ∀ (t : FileTree) (p : FilePath), p.EndsInName →
    .up ∉ p.components → (∃ u placeholder, t.stage p = (u, .ok placeholder)) ∨ ∃ e, t.stage p = (t, .error e) := by
  have hlong : fits longName = false := by decide +kernel
  have hbase : empty.base longPath = [] := if_pos isAbsolute_longPath
  have hspelled : longPath.spelled = ["", "new"] ++ [longName] := by
    rw [FilePath.spelled, components_longPath]
    rfl
  have htrail : trail [] ["", "new"] = [[], ["new"]] := by decide
  have hnone : empty.at? ["new"] = none := by decide +kernel
  have hcan : empty.CanMake (empty.base longPath) ["", "new"] := by
    have hfits : ["", "new"].all fits = true := by decide
    rw [hbase]
    exact ⟨fun _ => empty.at?_root, by simp [htrail, hnone], List.all_eq_true.1 hfits⟩
  have hmissing : ¬ empty.Open (empty.base longPath) ["", "new"] := by
    rw [hbase]
    exact fun hopen => absurd (hnone.symm.trans (hopen.2 ["new"] (by simp [htrail]))) (by simp)
  have hstart : empty.at? (empty.base longPath) = some .directory := by
    rw [hbase]
    exact empty.at?_root
  obtain ⟨u, hmade, hstage⟩ := stage_of_long_name endsInName_longPath hspelled hlong (cleared_longPath hnone)
    hstart hcan hmissing
  intro h
  rcases h empty longPath endsInName_longPath (by simp [components_longPath]) with ⟨v, placeholder, hok⟩ | ⟨e, herror⟩
  · simp [hstage] at hok
  · have hsame : u = empty := (Prod.mk.inj (hstage.symm.trans herror)).1
    have hnew := hmade.at?_eq ["new"]
    rw [hsame, hnone, hbase, htrail] at hnew
    simp at hnew

/-- An old pool, and a file where a directory is wanted. -/
def occupied : FileTree := .ofTexts [(["x", "pool", "old", "a.rs"], "pub struct Old;"), (["y"], "text")]

theorem stage_all_or_nothing_occupied :
    (∃ u, occupied.stage ⟨"/x/pool/"⟩ = (u, .ok ⟨"/x/pool/temp.rs"⟩) ∧ Staged occupied ⟨"/x/pool/"⟩ u ∧
      u.stage ⟨"/x/pool/"⟩ = (u, .ok ⟨"/x/pool/temp.rs"⟩)) ∧
    ∃ cause, occupied.stage ⟨"/y/pool"⟩ = (occupied, .error (.remove ⟨"/y/pool"⟩ cause)) ∨
      occupied.stage ⟨"/y/pool"⟩ = (occupied, .error (.create ⟨"/y/pool"⟩ cause)) := by
  have hname : IsName "pool" := ⟨by decide, by decide, by decide, by decide⟩
  have hfree : occupied.IsFree ⟨"/x/pool/"⟩ := by
    have hdirs : ∀ place ∈ [[], ["x"], ["x", "pool"]], occupied.at? place = some .directory := by
      decide +kernel
    refine ⟨hdirs [] (by decide), fun place bytes hfile hplace => ?_⟩
    have hmem : place ∈ [[], ["x"], ["x", "pool"]] := (List.mem_inits _ _).2 hplace
    exact absurd ((hdirs place hmem).symm.trans hfile) (by simp)
  have hblocked : ¬ occupied.IsFree ⟨"/y/pool"⟩ := by
    intro h
    have hfile : occupied.at? ["y"] = some (.file "text".toUTF8) := by decide +kernel
    exact absurd (h.above _ _ hfile (by decide +kernel)).1 (by decide +kernel)
  have hfits : FilePath.Fits ⟨"/x/pool/"⟩ := by
    intro name hmem
    obtain rfl | rfl : name = "x" ∨ name = "pool" := by
      have hcomponents : (⟨"/x/pool/"⟩ : FilePath).components = [.root, .name "x", .name "pool"] := by decide
      simpa [hcomponents] using hmem
    · decide
    · decide
  exact ⟨(stage_all_or_nothing ⟨["", "x"], "pool", by decide, hname⟩ (by decide) occupied).2.1 hfits hfree,
    (stage_all_or_nothing ⟨["", "y"], "pool", by decide, hname⟩ (by decide) occupied).2.2.1 hblocked⟩

end FileTree

end ModelPool
