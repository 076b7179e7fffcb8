import ModelPool.Proofs.Load.Roots
import ModelPool.Proofs.Pool.Clearing
import ModelPool.Proofs.Pool.FileReading

/-!
# Proofs/Pool/Identity — one directory, one import path and one name

    gen//pool/            the directory of the pool
    /fw/gen/pool          where it stands under the framework root
    gen::pool             its import path
    pool                  the name of its package

The names among the steps of the directory are cut out once by its check, which takes slashes of either kind,
and once by the steps, which end at forward slashes.  They come apart into the same identifiers unless there is
a backslash, and the path that is made of them leads to the pool and back in any case.

* `isIdentifier_names_iff` — when the names are identifiers.
* `find?_pool`, `importPath?_pool` — the way from the import path to the pool and back.
* `pool_identity` — all that the pool is called by.
-/

namespace ModelPool

open FileTree Source

/-! ## Names of an accepted directory -/

section Names

variable {dir : FilePath}

/-- **An accepted directory ends in a name.** -/
theorem endsInName_of_check (h : checkPoolDirectory dir = .ok ()) : dir.EndsInName := by
  obtain ⟨piece, hpiece, hne⟩ := exists_piece_of_check h
  obtain ⟨ps, last, hparts, hlast⟩ := FilePath.exists_last_withoutEndSlashes hpiece hne
  obtain ⟨n, hn⟩ := dir.exists_parts_withoutEndSlashes
  exact ⟨ps, last, hparts, isName_of_check h (by simp [hn, hparts]) hlast⟩

/-- The names among the steps of an accepted directory are its pieces. -/
theorem mem_namesOf_iff (h : checkPoolDirectory dir = .ok ()) {name : String} :
    name ∈ FilePath.namesOf dir.parts ↔ name ∈ dir.parts ∧ name ≠ "" := by
  constructor
  · intro hmem
    obtain ⟨step, hstep, hname⟩ := List.mem_filterMap.1 hmem
    obtain ⟨piece, hpiece, hstep⟩ := List.mem_filterMap.1 hstep
    cases step with
    | name s =>
      obtain rfl : s = name := Option.some.inj hname
      obtain rfl := FilePath.eq_of_step?_name hstep
      refine ⟨hpiece, ?_⟩
      rintro rfl
      exact absurd hstep (by decide)
    | _ => exact absurd hname (by simp [Component.name?])
  · rintro ⟨hpiece, hne⟩
    exact List.mem_filterMap.2 ⟨.name name, List.mem_filterMap.2
      ⟨name, hpiece, FilePath.step?_name (isName_of_check h hpiece hne)⟩, rfl⟩

/-- **The names are identifiers exactly if there is no backslash**, at which only the check cuts. -/
theorem isIdentifier_names_iff (h : checkPoolDirectory dir = .ok ()) :
    (∀ name ∈ FilePath.namesOf dir.parts, isIdentifier name = true) ↔ '\\' ∉ dir.text.toList := by
  constructor
  · intro hall hback
    obtain ⟨cs, hcs, hmem⟩ := exists_mem_pieces hback (by decide)
    have hne : String.ofList cs ≠ "" := by
      intro hempty
      have hnil : cs = [] := by simpa using hempty
      exact absurd hmem (hnil ▸ List.not_mem_nil)
    have hname := hall _ ((mem_namesOf_iff h).2 ⟨List.mem_map_of_mem hcs, hne⟩)
    exact absurd (isPlain_of_isIdentifier hname '\\' (by rwa [String.toList_ofList])) (by decide)
  · intro hback name hname
    obtain ⟨hpiece, hne⟩ := (mem_namesOf_iff h).1 hname
    obtain ⟨cs, hcs, rfl⟩ := List.mem_map.1 hpiece
    have hforward : (dir.text.toList.map fun c => if c = '\\' then '/' else c) = dir.text.toList := by
      conv_rhs => rw [← List.map_id dir.text.toList]
      refine List.map_congr_left fun c hc => if_neg ?_
      rintro rfl
      exact hback hc
    refine isIdentifier_of_badSegment? (badSegment?_of_check h).2 _ ?_
    unfold poolSegments
    rw [hforward]
    refine List.mem_map_of_mem (List.mem_filter.2 ⟨hcs, ?_⟩)
    cases cs with
    | nil => exact absurd rfl hne
    | cons _ _ => rfl

/-- A letter is no digit. -/
theorem not_isDigit_of_isAlpha {c : Char} (h : c.isAlpha = true) : ¬ c.isDigit = true := by
  intro hdigit
  delta Char.isAlpha Char.isUpper Char.isLower at h
  delta Char.isDigit at hdigit
  simp only [Bool.or_eq_true, Bool.and_eq_true, decide_eq_true_eq, ge_iff_le,
    UInt32.le_iff_toNat_le] at hdigit h
  simp at hdigit h
  omega

/-- **An identifier is a name that a package may have as it is.** -/
theorem sanitizedName_of_isIdentifier {s : String} (h : isIdentifier s = true) : sanitizedName s = s := by
  have hplain : (s.toList.map fun c => if isPlain c then c else '_') = s.toList := by
    conv_rhs => rw [← List.map_id s.toList]
    exact List.map_congr_left fun c hc => if_pos (isPlain_of_isIdentifier h c hc)
  unfold isIdentifier at h
  unfold sanitizedName
  rw [hplain]
  cases hs : s.toList with
  | nil => simp [hs] at h
  | cons c r =>
    rw [hs] at h
    have hfirst : c.isAlpha = true ∨ c = '_' := by
      simpa using (Bool.and_eq_true_iff.1 (Bool.and_eq_true_iff.1 h).1).1
    have hdigit : ¬ c.isDigit = true := by
      rcases hfirst with halpha | rfl
      · exact not_isDigit_of_isAlpha halpha
      · decide
    dsimp only
    rw [if_neg hdigit, ← hs, String.ofList_toList]

end Names

namespace RunConfig

variable {c : RunConfig}

/-! ## What the pool is called -/

/-- **What a pool is called**: its import path is made of names and comes apart into them, its package is named
by the last one, and they are identifiers if there is no backslash in its directory. -/
structure IsCalled (c : RunConfig) (init : List String) (last : String) : Prop where
  pool_eq : c.pool = pathText (init ++ [last])
  segments_eq : packageSegments c.pool = init ++ [last]
  isIdentifier_iff : (∀ name ∈ init ++ [last], isIdentifier name = true) ↔ '\\' ∉ c.poolDir.text.toList
  poolName_eq : c.poolName = sanitizedName last
  poolName_eq_last : '\\' ∉ c.poolDir.text.toList → c.poolName = last
  placeholder_eq : ModelPool.poolName c.poolPath = c.poolName

/-- **Each accepted directory gives the pool its names.** -/
theorem exists_isCalled (h : checkPoolDirectory c.poolDir = .ok ()) :
    ∃ init last, FilePath.namesOf c.poolDir.parts = init ++ [last] ∧ c.IsCalled init last := by
  obtain ⟨ps, last, n, hlast, hparts⟩ := (endsInName_of_check h).exists_parts
  have hnames := FilePath.namesOf_of_parts hlast hparts
  have hfile := FilePath.fileName?_of_parts hlast hparts
  have hpool := c.pool_eq_pathText
  have hsegments := isSegment_of_check h
  have hidentifiers := isIdentifier_names_iff h
  rw [hnames] at hpool hsegments hidentifiers
  have hname : c.poolName = sanitizedName last := by
    rw [poolName, ModelPool.poolName, hfile, Option.getD_some]
  refine ⟨_, last, hnames, hpool, by rw [hpool, packageSegments_pathText hsegments], hidentifiers, hname,
    fun hback => ?_, ?_⟩
  · rw [hname, sanitizedName_of_isIdentifier (hidentifiers.2 hback last (by simp))]
  · -- the path of the pool ends in the pieces of its directory
    obtain ⟨lead, hlead⟩ := c.exists_parts_poolPath (isAbsolute_of_check h)
    have hpath : c.poolPath.parts = (lead ++ ps) ++ [last] ++ List.replicate n "" := by
      rw [hlead, hparts]
      simp
    rw [hname, ModelPool.poolName, FilePath.fileName?_of_parts hlast hpath, Option.getD_some]

/-! ## From the import path to the pool and back -/

section Found

variable {t : FileTree} {d : Place} {roots : SourceRoots} (hcheck : checkPoolDirectory c.poolDir = .ok ())
  (hroot : ¬ c.frameworkRoot.text.isEmpty = true) (hroots : roots.framework = t.normalized c.frameworkRoot)
  (h : t.find c.poolPath = .ok (d, .directory))

include hcheck hroot hroots h

/-- **The import path leads to the pool**, whatever the other roots are. -/
theorem find?_pool (hsource : t.HoldsSource d) : roots.find? t c.pool = some (t.normalized c.poolPath) := by
  obtain ⟨r, hr, rfl⟩ := exists_root_of_find hcheck hroot h
  have hnames := t.isName_of_at? (t.find_eq_ok_iff.1 h).2
  have hcandidate := candidate_ofPlace hnames
  rw [← normalized_of_find hr, ← hroots] at hcandidate
  rw [normalized_of_find h, pool_eq_pathText, ← hcandidate]
  refine SourceRoots.find?_framework (namesOf_ne_nil hcheck) (isSegment_of_check hcheck) ?_
  rw [hcandidate]
  exact isPackageDirectory_of_holdsSource (t.find_ofPlace (t.find_eq_ok_iff.1 h).2) hsource

/-- **And the pool has this import path.** -/
theorem importPath?_pool : roots.importPath? t (t.normalized c.poolPath) = some c.pool := by
  obtain ⟨r, hr, rfl⟩ := exists_root_of_find hcheck hroot h
  have hnames := t.isName_of_at? (t.find_eq_ok_iff.1 h).2
  have hplace := t.find_ofPlace (t.find_eq_ok_iff.1 h).2
  have hsteps : FilePath.below? roots.framework (t.normalized (t.normalized c.poolPath)) =
      some ((FilePath.namesOf c.poolDir.parts).map Component.name) := by
    rw [normalized_of_find h, normalized_of_find hplace, hroots, normalized_of_find hr, FilePath.below?,
      FilePath.stepsBelow?_eq_some_iff, FilePath.components_ofPlace hnames,
      FilePath.components_ofPlace fun n hn => hnames n (List.mem_append_left _ hn), List.map_append]
    rfl
  refine SourceRoots.importPath?_eq_some_iff.2 ⟨[], roots.framework, roots.others, _, rfl, hsteps,
    mt List.map_eq_nil_iff.1 (namesOf_ne_nil hcheck), ?_, fun r hr => absurd hr List.not_mem_nil⟩
  rw [SourceRoots.map_text_names, pool_eq_pathText]

end Found

/-! ## The pool that has been cleared -/

/-- **A pool is reached by its import path**: its placeholder names its package, and the path leads to its
directory and back.  Under an empty framework root, the directory that is found is not canonical. -/
structure IsReached (c : RunConfig) (t : FileTree) (placeholder : FilePath) : Prop where
  placeholder : ∃ place, t.find placeholder = .ok (place, .file (placeholderSource c.poolName).toUTF8)
  declared : (SourceUnit.ofText (placeholderSource c.poolName)).package = some c.poolName
  found : ∃ dir, (c.roots t).find? t c.pool = some dir ∧ t.normalized dir = t.normalized c.poolPath
  returned : c.frameworkRoot.text ≠ "" → (c.roots t).find? t c.pool = some (t.normalized c.poolPath) ∧
    (c.roots t).importPath? t (t.normalized c.poolPath) = some c.pool

/-- Once it has been cleared. -/
theorem isReached_of_stage {t staged : FileTree} {placeholder : FilePath}
    (hcheck : checkPoolDirectory c.poolDir = .ok ()) (h : t.stage c.poolPath = (staged, .ok placeholder)) :
    c.IsReached staged placeholder := by
  obtain ⟨init, last, -, hcalled⟩ := exists_isCalled hcheck
  obtain ⟨hfind, hconsists⟩ := consists_of_stage (endsInName_poolPath hcheck) h
  have hfile := hconsists.file _ List.mem_cons_self
  have hsource : staged.HoldsSource (t.leads c.poolPath) :=
    ⟨placeholderFile, _, hfile, isSourceName_placeholderFile⟩
  refine ⟨?_, ?_, ?_, fun hne => ?_⟩
  · rw [placeholderEntry, hcalled.placeholder_eq] at hfile
    rw [placeholder_of_stage h]
    exact ⟨_, (staged.find_child hfind isName_placeholderFile).2 hfile⟩
  · have hunit := Emitter.ofText_preamble c.isWord_poolName
    exact congrArg SourceUnit.package hunit
  · obtain ⟨dir, hdir, hplace⟩ := exists_find?_pool hcheck rfl (fun _ hat => hat) hfind hsource
    exact ⟨dir, hdir, by rw [normalized_of_find hplace, normalized_of_find hfind]⟩
  · have hroot : ¬ c.frameworkRoot.text.isEmpty = true := by rwa [String.isEmpty_iff]
    have hroots : (c.roots staged).framework = staged.normalized c.frameworkRoot :=
      SourceRoots.framework_ofFramework _ _ _
    exact ⟨find?_pool hcheck hroot hroots hfind hsource, importPath?_pool hcheck hroot hroots hfind⟩

/-- **One directory, one import path and one name**: an accepted directory of the pool is imported by the names
of its steps, the last of which names its package, and when the pool has been cleared, in whatever tree and with
whatever other roots, its placeholder has that name and the import path leads to the pool and back.  The names
are identifiers if there is no backslash in the directory. -/
theorem pool_identity (h : checkPoolDirectory c.poolDir = .ok ()) :
    (∃ init last, c.IsCalled init last) ∧ ∀ (t staged : FileTree) (placeholder : FilePath),
      t.stage c.poolPath = (staged, .ok placeholder) → c.IsReached staged placeholder := by
  obtain ⟨init, last, -, hcalled⟩ := exists_isCalled h
  exact ⟨⟨init, last, hcalled⟩, fun _ _ _ => isReached_of_stage h⟩

/-- A pool inside another directory. -/
def nested : RunConfig := { ofFramework ⟨"/fw"⟩ with poolDir := ⟨"gen//pool/"⟩ }

theorem pool_identity_nested : (∃ init last, nested.IsCalled init last) ∧
    ∃ staged placeholder, FileTree.empty.stage nested.poolPath = (staged, .ok placeholder) ∧
      nested.IsReached staged placeholder ∧ nested.pool = "gen::pool" ∧ nested.poolName = "pool" := by
  have hcheck : checkPoolDirectory nested.poolDir = .ok () := by decide +kernel
  obtain ⟨hcalled, hreached⟩ := pool_identity hcheck
  have hstage : (FileTree.empty.stage nested.poolPath).2 = .ok ⟨"/fw/gen//pool/temp.rs"⟩ := by decide +kernel
  exact ⟨hcalled, _, _, Prod.ext rfl hstage, hreached _ _ _ (Prod.ext rfl hstage), by decide +kernel,
    by decide +kernel⟩

/-- A directory whose name has a backslash in it. -/
def backslashed : RunConfig := { ofFramework ⟨"/fw"⟩ with poolDir := ⟨"gen\\pool"⟩ }

/-- **An accepted directory may have no import path of identifiers**, and under an empty framework root the pool
is not found by its canonical path. -/
theorem not_forall_pool_identity :
    (¬ ∀ c : RunConfig, checkPoolDirectory c.poolDir = .ok () →
      ∃ names, c.pool = pathText names ∧ ∀ name ∈ names, isIdentifier name = true) ∧
    ¬ ∀ (c : RunConfig) (t staged : FileTree) (placeholder : FilePath),
      checkPoolDirectory c.poolDir = .ok () → t.stage c.poolPath = (staged, .ok placeholder) →
        (c.roots staged).find? staged c.pool = some (staged.normalized c.poolPath) := by
  constructor
  · intro hall
    obtain ⟨names, hpool, hnames⟩ := hall backslashed (by decide +kernel)
    have hback : '\\' ∈ (pathText names).toList := by
      rw [← hpool]
      decide +kernel
    rcases mem_pathText hback with hcolon | ⟨name, hname, hmem⟩
    · exact absurd hcolon (by decide)
    · exact absurd (isPlain_of_isIdentifier (hnames name hname) _ hmem) (by decide)
  · intro hall
    have hstage : (FileTree.empty.stage (ofFramework ⟨""⟩).poolPath).2 = .ok ⟨"pool/temp.rs"⟩ := by decide +kernel
    exact absurd (hall (ofFramework ⟨""⟩) .empty _ _ (by decide +kernel) (Prod.ext rfl hstage)) (by decide +kernel)

end RunConfig

end ModelPool
