import ModelPool.Proofs.Load.Roots

/-!
# Proofs/Load/Apart — source roots that lie apart

    /fw  /ext              lie apart
    /fw  /fw/modules       do not:  /fw/modules/sale  is found as  modules::sale  and as  sale

The place of a package is that of a root, and the names of its import path below.  Where no root lies inside
another, a place can be taken apart in one way only, so a package has one import path: the one that it is
found by is its own.

This is so for paths of plain names.  A path whose segments hold slashes or dots may lead anywhere.

* `LieApart.path_eq` — packages in one directory have one path.
* `LieApart.eq_of_importPath` — a package's own path is the one that it is found by.
* `isPlainPath_of_loaded` — all that is reached from plain paths by plain names has a plain path.
-/

namespace ModelPool

open Text FileTree Source

/-! ## Plain names -/

/-- **A plain name** can be the name of a directory, and a segment that comes apart as it was put in. -/
structure IsPlainName (s : String) : Prop extends IsName s, IsSegment s

/-- **A path of plain names.** -/
def IsPlainPath (path : String) : Prop :=
  ∃ names, names ≠ [] ∧ (∀ s ∈ names, IsPlainName s) ∧ pathText names = path

/-- Identifiers are plain names. -/
theorem isPlainName_of_isWord {s : String} (h : isWord s.toList = true) : IsPlainName s where
  toIsSegment := isSegment_of_isWord h
  ne_here := fun hdot => not_mem_of_isWord h (c := '.') (by decide) (by decide) (by simp [hdot])
  ne_up := fun hdots => not_mem_of_isWord h (c := '.') (by decide) (by decide) (by simp [hdots])
  no_slash := not_mem_of_isWord h (by decide) (by decide)

/-- A plain path comes apart into its names. -/
theorem packageSegments_plain {names : List String} (h : ∀ s ∈ names, IsPlainName s) :
    packageSegments (pathText names) = names :=
  packageSegments_pathText fun s hs => (h s hs).toIsSegment

/-- And it is trimmed. -/
theorem IsPlainPath.trimmed_eq {path : String} (h : IsPlainPath path) : trimmed path = path := by
  obtain ⟨names, hne, hplain, rfl⟩ := h
  exact trimmed_pathText hne (packageSegments_plain hplain)

/-- There is no slash in a plain path. -/
theorem IsPlainPath.no_slash {path : String} (h : IsPlainPath path) : '/' ∉ path.toList := by
  obtain ⟨names, hne, hplain, rfl⟩ := h
  cases names with
  | nil => exact absurd rfl hne
  | cons first r =>
    obtain ⟨hfirst, hr⟩ := List.forall_mem_cons.1 hplain
    rw [toList_pathText_cons]
    intro hmem
    rcases List.mem_append.1 hmem with hmem | hmem
    · exact hfirst.no_slash hmem
    · obtain ⟨s, hs, hmem⟩ := List.mem_flatMap.1 hmem
      exact (hr s hs).no_slash (by simpa using hmem)

namespace SourceRoots

variable {t : FileTree} {roots : SourceRoots}

/-! ## Where roots lead -/

/-- **The directory that paths are looked up in under a root**; an empty root is where the program runs. -/
def LeadsTo (t : FileTree) (root : FilePath) (d : Place) : Prop :=
  (root = ⟨""⟩ ∧ d = t.current) ∨ t.find root = .ok (d, .directory)

theorem LeadsTo.unique {root : FilePath} {d d' : Place} (h : LeadsTo t root d)
    (h' : LeadsTo t root d') : d = d' := by
  have hempty : ∀ place, t.find ⟨""⟩ ≠ .ok (place, .directory) := fun _ => nofun
  rcases h with ⟨rfl, rfl⟩ | h
  · rcases h' with ⟨-, rfl⟩ | h'
    · rfl
    · exact absurd h' (hempty d')
  · rcases h' with ⟨rfl, -⟩ | h'
    · exact absurd h (hempty d)
    · exact (Prod.mk.inj (Except.ok.inj (h.symm.trans h'))).1

/-- **No root lies inside another.** -/
def LieApart (t : FileTree) (roots : SourceRoots) : Prop :=
  ∀ root ∈ roots.all, ∀ other ∈ roots.all, ∀ d d', LeadsTo t root d → LeadsTo t other d' →
    d <+: d' → root = other

/-- A place below two roots that lie apart is below one, by the same names. -/
theorem LieApart.eq_of_append_eq (h : roots.LieApart t) {root other : FilePath}
    (hroot : root ∈ roots.all) (hother : other ∈ roots.all) {d d' names names' : List String}
    (hd : LeadsTo t root d) (hd' : LeadsTo t other d') (heq : d ++ names = d' ++ names') :
    d = d' ∧ names = names' := by
  have hsame : root = other := by
    rcases List.prefix_or_prefix_of_prefix (List.prefix_append d names)
      (heq ▸ List.prefix_append d' names') with hprefix | hprefix
    · exact h root hroot other hother d d' hd hd' hprefix
    · exact (h other hother root hroot d' d hd' hd hprefix).symm
  obtain rfl := hd.unique (hsame ▸ hd')
  exact ⟨rfl, List.append_cancel_left heq⟩

/-- **Names that lead to a directory** under a root lead there from where the root leads. -/
theorem exists_leadsTo_of_candidate {root : FilePath} {names : List String} {place : Place}
    (hne : names ≠ []) (hnames : ∀ n ∈ names, IsName n)
    (h : t.find (candidate root names) = .ok (place, .directory)) :
    ∃ d, LeadsTo t root d ∧ place = d ++ names := by
  by_cases hempty : root.text.isEmpty = true
  · obtain ⟨text⟩ := root
    obtain rfl := String.isEmpty_iff.1 hempty
    cases names with
    | nil => exact absurd rfl hne
    | cons n rest =>
      obtain ⟨hn, hrest⟩ := List.forall_mem_cons.1 hnames
      have hchild : (⟨""⟩ : FilePath).child n = ⟨n⟩ := by
        simp [FilePath.child, FilePath.join, FilePath.isAbsolute_name hn]
      have htext : ¬ (⟨n⟩ : FilePath).text.isEmpty = true := by simpa using hn.ne_empty
      change t.find (candidate ((⟨""⟩ : FilePath).child n) rest) = _ at h
      rw [hchild] at h
      obtain ⟨r, hr, rfl⟩ := find_of_candidate htext hrest h
      have hplace := (t.find_eq_ok_iff.1 hr).1
      rw [t.place_eq_locate htext, FilePath.parts_name hn, t.locate_singleton hn, base,
        if_neg (by simp [FilePath.isAbsolute_name hn])] at hplace
      exact ⟨t.current, .inl ⟨rfl, rfl⟩, by rw [hplace.2.2, List.append_assoc]; rfl⟩
  · obtain ⟨d, hd, rfl⟩ := find_of_candidate hempty hnames h
    exact ⟨d, .inr hd, rfl⟩

/-! ## The path that a package is found by -/

/-- **Where a package stands**: below a root, by the names of its path. -/
theorem HasPackage.exists_root {names : List String} {info : PackageInfo} (hne : names ≠ [])
    (hplain : ∀ s ∈ names, IsPlainName s) (h : roots.HasPackage t (pathText names) info) :
    ∃ root ∈ roots.all, ∃ d, LeadsTo t root d ∧ t.at? (d ++ names) = some .directory ∧
      info.dir = .ofPlace (d ++ names) ∧
      info.importPath = roots.importPath? t (.ofPlace (d ++ names)) := by
  obtain ⟨dir, hdir, hread⟩ := h
  obtain ⟨place, hplace, -, hinfoDir, hinfoPath⟩ := PackageInfo.exists_place_of_read hread
  have hsegments : findSegments? t roots names = some dir := by
    rw [← hdir, find?, packageSegments_plain hplain]
  rw [findSegments?, if_neg (by simpa using hne)] at hsegments
  obtain ⟨root, hroot, rfl⟩ := List.mem_map.1 (List.mem_of_find?_eq_some hsegments)
  obtain ⟨d, hd, rfl⟩ :=
    exists_leadsTo_of_candidate hne (fun n hn => (hplain n hn).toIsName) hplace
  exact ⟨root, hroot, d, hd, (t.find_eq_ok_iff.1 hplace).2, hinfoDir, hinfoPath⟩

/-- **Packages in one directory have one path**, if no root lies inside another. -/
theorem LieApart.path_eq (h : roots.LieApart t) {path other : String} {info info' : PackageInfo}
    (hpath : IsPlainPath path) (hother : IsPlainPath other) (hinfo : roots.HasPackage t path info)
    (hinfo' : roots.HasPackage t other info') (hdir : info.dir = info'.dir) : path = other := by
  obtain ⟨names, hne, hplain, rfl⟩ := hpath
  obtain ⟨names', hne', hplain', rfl⟩ := hother
  obtain ⟨root, hroot, d, hd, hat, hinfoDir, -⟩ := hinfo.exists_root hne hplain
  obtain ⟨root', hroot', d', hd', hat', hinfoDir', -⟩ := hinfo'.exists_root hne' hplain'
  have hplace : d ++ names = d' ++ names' :=
    FilePath.ofPlace_inj (t.isName_of_at? hat) (t.isName_of_at? hat')
      (hinfoDir.symm.trans (hdir.trans hinfoDir'))
  rw [(h.eq_of_append_eq hroot hroot' hd hd' hplace).2]

/-- **The import path of a package is the one that it is found by**, if no root lies inside another. -/
theorem LieApart.eq_of_importPath (h : roots.LieApart t) {path own : String} {info : PackageInfo}
    (hpath : IsPlainPath path) (hinfo : roots.HasPackage t path info)
    (hown : info.importPath = some own) (hplainOwn : IsPlainPath own) : own = path := by
  obtain ⟨names, hne, hplain, rfl⟩ := hpath
  obtain ⟨root, hroot, d, hd, hat, -, hinfoPath⟩ := hinfo.exists_root hne hplain
  rw [hinfoPath, importPath?_eq_some_iff, normalized_of_find (t.find_ofPlace hat)] at hown
  obtain ⟨before, other, after, steps, hall, hbelow, -, rfl, -⟩ := hown
  rcases below?_cases hbelow (t.isName_of_at? hat) with ⟨-, rfl⟩ | ⟨lead, rest, hsteps, rfl, hplace⟩
  · -- below an empty root, the path of a directory begins with a slash
    refine absurd ?_ hplainOwn.no_slash
    rw [List.map_cons, toList_pathText_cons]
    exact List.mem_append_left _ (by simp [Component.text])
  · have hlead : LeadsTo t other lead :=
      .inr (find_of_components hsteps (t.directory_above (hplace ▸ List.prefix_append _ _) hat))
    have hother : other ∈ roots.all := hall ▸ List.mem_append_right _ List.mem_cons_self
    rw [map_text_names, (h.eq_of_append_eq hroot hother hd hlead hplace).2]

end SourceRoots

/-! ## Entries of plain names -/

/-- **The `use` entries of files name plain names only.** -/
def PlainUses (files : List SourceFile) : Prop :=
  ∀ f ∈ files, ∀ u ∈ f.unit.uses, ∀ s ∈ u.path, IsPlainName s

namespace PackageInfo

variable {t : FileTree} {roots : SourceRoots} {u : UseEntry} {path : String}

/-- What an entry stands for is the path of its first segments. -/
theorem exists_prefix_of_dependency? (h : dependency? t roots u = some path) :
    ∃ segments, segments <+: u.path ∧ path = pathText segments := by
  unfold dependency? at h
  split at h
  · simp at h
  · simp at h
  · exact ⟨u.path, List.prefix_refl _, (Option.some.inj h).symm⟩
  · obtain ⟨segments, hbelow, rfl⟩ := SourceRoots.exists_packagePrefix?_of_package? h
    exact ⟨segments, (SourceRoots.isSome_find?_of_packagePrefix? hbelow).1, rfl⟩

/-- **A package that an entry of plain names stands for** has a plain path. -/
theorem isPlainPath_of_dependency? (h : dependency? t roots u = some path)
    (hplain : ∀ s ∈ u.path, IsPlainName s) (hfound : (roots.find? t path).isSome = true) :
    IsPlainPath path := by
  obtain ⟨segments, hsegments, rfl⟩ := exists_prefix_of_dependency? h
  refine ⟨segments, ?_, fun s hs => hplain s (hsegments.subset hs), rfl⟩
  rintro rfl
  exact absurd hfound (by simp [SourceRoots.find?, SourceRoots.findSegments?, packageSegments,
    pathText, splitColons, trim, trimStart])

end PackageInfo

namespace Program

variable {t : FileTree} {roots : SourceRoots} {imports : ImportSet}

/-- **All that is reached from plain paths by plain names has a plain path.** -/
theorem isPlainPath_of_loaded (hentries : ∀ entry ∈ imports.paths, IsPlainPath entry)
    (huses : ∀ x ∈ (walkOf t roots imports).loaded, PlainUses x.2.files) {path : String}
    {info : PackageInfo} (h : (path, info) ∈ (walkOf t roots imports).loaded) : IsPlainPath path := by
  obtain ⟨hpackage, entry, hentry, hreach⟩ := mem_loaded_iff.1 h
  rcases hreach.cases_tail with heq | ⟨other, hother, above, habove, himported⟩
  · rw [heq, (hentries entry hentry).trimmed_eq]
    exact hentries entry hentry
  · have hlisted : (other, above) ∈ (walkOf t roots imports).loaded :=
      mem_loaded_iff.2 ⟨habove, entry, hentry, hother⟩
    obtain ⟨_, -, hread⟩ := habove
    rw [PackageInfo.imports_of_read hread] at himported
    obtain ⟨⟨f, hf, u, hu, hdependency⟩, -⟩ := PackageInfo.mem_importsOf_iff.1 himported
    obtain ⟨dir, hdir, -⟩ := hpackage
    exact PackageInfo.isPlainPath_of_dependency? hdependency (huses _ hlisted f hf u hu) (by simp [hdir])

end Program

end ModelPool
