import ModelPool.Proofs.Load.Growth
import ModelPool.Proofs.Pool.Directory
import ModelPool.Proofs.Source.Words

/-!
# Proofs/Pool/Location — the directory of a pool and its import path

    framework root     sub/./pool          where the pool stands
                       sub::pool           its import path

The import path of a pool names the steps of its directory.  Under the framework root, which comes first among
the roots, these lead to where the pool stands, so this is the package that the path is the path of.

* `leadsTo_eq_append` — pieces that do not go up.
* `find_candidate` — the directory of some segments.
* `exists_find?_pool` — the pool is found by its import path.
-/

namespace ModelPool

open Text

/-! ## Steps down -/

/-- The name that a step leads down by. -/
def Component.name? : Component → Option String
  | name s => some s
  | _ => none

namespace FilePath

/-- The names among the steps that pieces stand for. -/
def namesOf (ps : List String) : List String := (ps.filterMap step?).filterMap Component.name?

theorem namesOf_cons (piece : String) (r : List String) :
    namesOf (piece :: r) = ((step? piece).bind Component.name?).toList ++ namesOf r := by
  unfold namesOf
  cases hstep : step? piece with
  | none => rw [List.filterMap_cons_none hstep]; rfl
  | some c =>
    rw [List.filterMap_cons_some hstep]
    cases c <;> rfl

/-- **The names among the steps of a path.** -/
theorem names_components (p : FilePath) : p.components.filterMap Component.name? = namesOf p.parts := by
  obtain ⟨lead, hcomponents, hlead⟩ := p.exists_components_eq
  rw [hcomponents, List.filterMap_append]
  rcases hlead with rfl | rfl | rfl <;> rfl

/-- The last name of a path that ends in one. -/
theorem namesOf_of_parts {p : FilePath} {ps : List String} {name : String} {n : Nat} (hname : IsName name)
    (h : p.parts = ps ++ [name] ++ List.replicate n "") : namesOf p.parts = namesOf ps ++ [name] := by
  have hend : (List.replicate n "").filterMap step? = [] := by simp [step?]
  simp [h, namesOf, hend, step?_name hname, Component.name?]

end FilePath

namespace FileTree

/-- **Pieces that do not go up lead down their names.** -/
theorem leadsTo_eq_append {start : Place} {ps : List String} (hup : ".." ∉ ps) :
    leadsTo start ps = start ++ FilePath.namesOf ps := by
  induction ps generalizing start with
  | nil => simp [leadsTo, FilePath.namesOf]
  | cons piece r ih =>
    obtain ⟨hpiece, hr⟩ := not_or.1 (mt List.mem_cons.2 hup)
    rw [leadsTo, FilePath.namesOf_cons]
    cases hstep : FilePath.step? piece with
    | none => exact ih hr
    | some c =>
      cases c with
      | up => exact absurd hstep (step?_ne_up (Ne.symm hpiece))
      | name s => exact (ih hr).trans (List.append_assoc _ _ _)
      | root => exact ih hr
      | here => exact ih hr

/-- **The directory of some segments** under a root. -/
theorem find_candidate {t : FileTree} {root : FilePath} {r segments : List String}
    (hroot : t.find root = .ok (r, .directory)) (h : t.at? (r ++ segments) = some .directory) :
    t.find (SourceRoots.candidate root segments) = .ok (r ++ segments, .directory) := by
  induction segments generalizing root r with
  | nil => simpa [SourceRoots.candidate] using hroot
  | cons s rest ih =>
    rw [List.append_cons] at h ⊢
    have hname : IsName s := t.isName_of_at? h s (by simp)
    have hdir : t.at? (r ++ [s]) = some .directory := t.directory_above (List.prefix_append _ _) h
    exact ih ((t.find_child hroot hname).2 hdir) h

/-- Without a root, the segments lead from the current directory. -/
theorem find_candidate_current {t : FileTree} {segments : List String} (hne : segments ≠ [])
    (h : t.at? (t.current ++ segments) = some .directory) :
    t.find (SourceRoots.candidate ⟨""⟩ segments) = .ok (t.current ++ segments, .directory) := by
  cases segments with
  | nil => exact absurd rfl hne
  | cons s rest =>
    rw [List.append_cons] at h ⊢
    have hentry : IsEntryName s := t.isEntryName_of_at? h s (by simp)
    have hname := hentry.toIsName
    have hfirst : t.at? (t.current ++ [s]) = some .directory := t.directory_above (List.prefix_append _ _) h
    have hs : t.find ⟨s⟩ = .ok (t.current ++ [s], .directory) := by
      refine t.find_eq_ok_iff.2 ⟨?_, hfirst⟩
      have hbase : t.base ⟨s⟩ = t.current := by simp [base, FilePath.isAbsolute_name hname]
      rw [t.place_eq_locate (by simpa using hname.ne_empty), FilePath.parts_name hname,
        t.locate_singleton hname, hbase]
      exact ⟨t.at?_parent hfirst, hentry.fits, rfl⟩
    have hchild : (⟨""⟩ : FilePath).child s = ⟨s⟩ := by
      simp [FilePath.child, FilePath.join, FilePath.isAbsolute_name hname]
    have hcandidate : SourceRoots.candidate ⟨""⟩ (s :: rest) = SourceRoots.candidate ⟨s⟩ rest := by
      rw [← hchild]
      rfl
    rw [hcandidate]
    exact find_candidate hs h

end FileTree

/-! ## The roots of a framework -/

theorem SourceRoots.framework_ofFramework (t : FileTree) (framework : FilePath) (others : List FilePath) :
    (SourceRoots.ofFramework t framework others).framework = t.normalized framework := by
  have hadd : ∀ roots : SourceRoots, (others.foldl (SourceRoots.add t) roots).framework =
      roots.framework := by
    induction others with
    | nil => exact fun _ => rfl
    | cons p r ih =>
      intro roots
      rw [List.foldl_cons, ih]
      unfold SourceRoots.add SourceRoots.addRoot
      split <;> rfl
  exact hadd _

/-- **A package under the first root** is found there. -/
theorem SourceRoots.find?_framework {t : FileTree} {roots : SourceRoots} {segments : List String}
    (hne : segments ≠ []) (hsegments : ∀ s ∈ segments, IsSegment s)
    (h : t.isPackageDirectory (candidate roots.framework segments) = true) :
    roots.find? t (pathText segments) = some (candidate roots.framework segments) := by
  unfold find? findSegments?
  rw [packageSegments_pathText hsegments, if_neg (by simpa using hne)]
  exact List.find?_cons_of_pos h

/-! ## The pool -/

open FileTree

namespace RunConfig

variable {c : RunConfig}

/-- The names of the steps down to the pool are segments. -/
theorem isSegment_of_check (h : checkPoolDirectory c.poolDir = .ok ()) :
    ∀ s ∈ FilePath.namesOf c.poolDir.parts, IsSegment s := by
  intro s hs
  obtain ⟨step, hstep, hname⟩ := List.mem_filterMap.1 hs
  obtain ⟨piece, hpiece, hstep⟩ := List.mem_filterMap.1 hstep
  cases step with
  | name s' =>
    obtain rfl : s' = s := Option.some.inj hname
    obtain rfl := FilePath.eq_of_step?_name hstep
    obtain ⟨cs, hcs, rfl⟩ := List.mem_map.1 hpiece
    have hmem : ∀ {char : Char}, char ∈ (String.ofList cs).toList → char ∈ c.poolDir.text.toList := by
      intro char hchar
      rw [String.toList_ofList] at hchar
      exact mem_of_mem_pieces hcs hchar
    refine ⟨?_, fun hcolon => ?_, fun char hchar => isBlank_of_check h char (hmem hchar)⟩
    · intro hempty
      rw [hempty] at hstep
      exact absurd hstep (by decide)
    · exact absurd (isPlain_of_check h ':' (hmem hcolon)) (by decide)
  | _ => exact absurd hname (by simp [Component.name?])

theorem namesOf_ne_nil (h : checkPoolDirectory c.poolDir = .ok ()) :
    FilePath.namesOf c.poolDir.parts ≠ [] := by
  obtain ⟨piece, hpiece, hne⟩ := exists_piece_of_check h
  have hname := isName_of_check h hpiece hne
  exact List.ne_nil_of_mem (List.mem_filterMap.2 ⟨.name piece,
    List.mem_filterMap.2 ⟨piece, hpiece, FilePath.step?_name hname⟩, rfl⟩)

theorem pool_eq_pathText (c : RunConfig) :
    c.pool = pathText (FilePath.namesOf c.poolDir.parts) := by
  rw [← FilePath.names_components]
  unfold pool poolImportPath
  congr 2

/-- The pool stands below the framework root, down the names of its directory. -/
theorem exists_root_of_find {t : FileTree} {d : Place} (hcheck : checkPoolDirectory c.poolDir = .ok ())
    (hroot : ¬ c.frameworkRoot.text.isEmpty = true) (h : t.find c.poolPath = .ok (d, .directory)) :
    ∃ r, t.find c.frameworkRoot = .ok (r, .directory) ∧ d = r ++ FilePath.namesOf c.poolDir.parts := by
  obtain ⟨r, hr, hlocate⟩ := (t.place_join_iff hroot (isAbsolute_of_check hcheck)).1 (t.find_eq_ok_iff.1 h).1
  exact ⟨r, hr, (t.eq_leadsTo hlocate).trans (leadsTo_eq_append (up_not_mem_of_check hcheck))⟩

/-- **Where the pool stands under the framework.** -/
theorem find_candidate_pool {t u : FileTree} {d : Place} (hcheck : checkPoolDirectory c.poolDir = .ok ())
    (hcurrent : u.current = t.current)
    (hkept : ∀ place, t.at? place = some .directory → u.at? place = some .directory)
    (h : t.find c.poolPath = .ok (d, .directory)) :
    u.find (SourceRoots.candidate (t.normalized c.frameworkRoot) (FilePath.namesOf c.poolDir.parts)) =
      .ok (d, .directory) := by
  have hrelative := isAbsolute_of_check hcheck
  have hup := up_not_mem_of_check hcheck
  obtain ⟨hplace, hat⟩ := t.find_eq_ok_iff.1 h
  by_cases hempty : c.frameworkRoot.text.isEmpty = true
  · -- without a framework root, the pool stands under the current directory
    have hroot : c.frameworkRoot = ⟨""⟩ := by
      cases hc : c.frameworkRoot
      simpa [hc] using hempty
    have hpath : c.poolPath = c.poolDir := by
      simp [poolPath, hroot, FilePath.join, hrelative]
    have hnormal : t.normalized ⟨""⟩ = ⟨""⟩ := rfl
    have hdir : ¬ c.poolDir.text.isEmpty = true := hpath ▸ not_isEmpty_poolPath hcheck
    rw [hpath, t.place_eq_locate hdir] at hplace
    obtain rfl : d = t.current ++ FilePath.namesOf c.poolDir.parts := by
      have hbase : t.base c.poolDir = t.current := by simp [base, hrelative]
      rw [← hbase]
      exact (t.eq_leadsTo hplace).trans (leadsTo_eq_append hup)
    have hthere := hkept _ hat
    rw [hroot, hnormal, ← hcurrent]
    rw [← hcurrent] at hthere
    exact find_candidate_current (namesOf_ne_nil hcheck) hthere
  · obtain ⟨r, hr, rfl⟩ := exists_root_of_find hcheck hempty h
    rw [normalized_of_find hr]
    have hrdir := (t.find_eq_ok_iff.1 hr).2
    exact find_candidate (u.find_ofPlace (hkept _ hrdir)) (hkept _ hat)

/-- **The pool is found by its import path**, where it stands. -/
theorem exists_find?_pool {t u : FileTree} {d : Place} (hcheck : checkPoolDirectory c.poolDir = .ok ())
    (hcurrent : u.current = t.current)
    (hkept : ∀ place, t.at? place = some .directory → u.at? place = some .directory)
    (h : t.find c.poolPath = .ok (d, .directory)) (hsource : u.HoldsSource d) :
    ∃ dir, (c.roots t).find? u c.pool = some dir ∧ u.find dir = .ok (d, .directory) := by
  have hfind := find_candidate_pool hcheck hcurrent hkept h
  have hroot : (c.roots t).framework = t.normalized c.frameworkRoot :=
    SourceRoots.framework_ofFramework _ _ _
  rw [← hroot] at hfind
  refine ⟨_, ?_, hfind⟩
  rw [pool_eq_pathText]
  exact SourceRoots.find?_framework (namesOf_ne_nil hcheck) (isSegment_of_check hcheck)
    (isPackageDirectory_of_holdsSource hfind hsource)

end RunConfig

end ModelPool
