import ModelPool.Files.Texts
import ModelPool.Proofs.Load.Counted
import ModelPool.Proofs.Load.Roots
import ModelPool.Run.Resolution

/-!
# Proofs/Run/Target — whether the module that is to be tested is loaded

    /fw  /fw/sub  /ext      the roots
    /ext/m                  the module, which is imported as  m
    /fw/sub/m               what is loaded as  m

A module is named from the first root that contains it, and looked for under the first root that has a package
of its name.  So it is the module that is loaded, unless a root before the one that it is named from has such
a package, too.  That is another one, whose own import path may be another one as well.

* `load_lists_target` — when the module is loaded.
* `not_forall_target_loaded` — another package of the same name.
-/

namespace ModelPool

open FileTree Text

namespace PackageInfo

variable {t : FileTree} {roots : SourceRoots} {dir : FilePath} {info : PackageInfo}

/-- Paths that lead to one directory lead to one package. -/
theorem read_congr {other : FilePath} {place : Place} (h : t.find dir = .ok (place, .directory))
    (h' : t.find other = .ok (place, .directory)) : read t roots other = read t roots dir := by
  rw [read, read, if_pos (isDirectory_iff.2 ⟨place, h⟩), if_pos (isDirectory_iff.2 ⟨place, h'⟩),
    normalized_of_find h, normalized_of_find h']

end PackageInfo

namespace SourceRoots

variable {t : FileTree} {roots : SourceRoots} {before after : List FilePath} {root : FilePath}
  {names : List String} {path : String}

/-- **A path that no root before has a package for** is found under the next one. -/
theorem find?_of_before (hall : roots.all = before ++ root :: after) (hne : names ≠ [])
    (hpath : packageSegments path = names)
    (hbefore : ∀ r ∈ before, t.isPackageDirectory (candidate r names) = false)
    (hroot : t.isPackageDirectory (candidate root names) = true) :
    roots.find? t path = some (candidate root names) := by
  have hnone : (before.map fun r => candidate r names).find? t.isPackageDirectory = none := by
    rw [List.find?_eq_none]
    intro dir hdir
    obtain ⟨r, hr, rfl⟩ := List.mem_map.1 hdir
    simp [hbefore r hr]
  rw [find?, findSegments?, hpath, if_neg (by simpa using hne), hall, List.map_append, List.find?_append,
    hnone, List.map_cons, List.find?_cons_of_pos hroot]
  rfl

/-- And one that a root before has a package for is found under such a root. -/
theorem exists_find?_of_before (hall : roots.all = before ++ root :: after) (hne : names ≠ [])
    (hpath : packageSegments path = names)
    (hbefore : ∃ r ∈ before, t.isPackageDirectory (candidate r names) = true) :
    ∃ r ∈ before, roots.find? t path = some (candidate r names) := by
  obtain ⟨r, hr, hpackage⟩ := hbefore
  obtain ⟨dir, hdir⟩ : ∃ dir, (before.map fun r => candidate r names).find? t.isPackageDirectory =
      some dir := by
    rw [← Option.isSome_iff_exists, List.find?_isSome]
    exact ⟨_, List.mem_map_of_mem hr, hpackage⟩
  obtain ⟨r', hr', rfl⟩ := List.mem_map.1 (List.mem_of_find?_eq_some hdir)
  refine ⟨r', hr', ?_⟩
  rw [find?, findSegments?, hpath, if_neg (by simpa using hne), hall, List.map_append, List.find?_append,
    hdir]
  rfl

section Named

variable {framework dir : FilePath} {others : List FilePath} {place : Place} {steps : List Component}
  {info : PackageInfo}
  (hall : (ofFramework t framework others).all = before ++ root :: after)
  (hbelow : root.below? (.ofPlace place) = some steps) (hne : steps ≠ [])
  (hbefore : ∀ r ∈ before, ∀ steps, r.below? (.ofPlace place) = some steps → steps = [])
  (hsegments : packageSegments (pathText (steps.map Component.text)) = steps.map Component.text)
  (hplace : t.find dir = .ok (place, .directory)) (hsource : t.HoldsSource place)
  (hread : PackageInfo.read t (ofFramework t framework others) dir = .ok info)

include hall hbelow hne hsegments hplace

include hsource hread in
/-- **The package of a directory has the directory's import path**, if no root before has a package of its
names. -/
theorem hasPackage_named
    (hnone : ∀ r ∈ before, t.isPackageDirectory (candidate r (steps.map Component.text)) = false) :
    (ofFramework t framework others).HasPackage t (pathText (steps.map Component.text)) info := by
  have hroot := find_candidate_steps hbelow (t.find_eq_ok_iff.1 hplace).2
  exact ⟨_, find?_of_before hall (mt List.map_eq_nil_iff.1 hne) hsegments hnone
    (isPackageDirectory_of_holdsSource hroot hsource), (PackageInfo.read_congr hplace hroot).trans hread⟩

include hbefore in
/-- **Otherwise another one has it.** -/
theorem dir_ne_of_hasPackage {found : PackageInfo}
    (h : (ofFramework t framework others).HasPackage t (pathText (steps.map Component.text)) found)
    (hhidden : ∃ r ∈ before, t.isPackageDirectory (candidate r (steps.map Component.text)) = true) :
    found.dir ≠ .ofPlace place := by
  intro htarget
  have hat := (t.find_eq_ok_iff.1 hplace).2
  obtain ⟨r, hr, hfound⟩ :=
    exists_find?_of_before hall (mt List.map_eq_nil_iff.1 hne) hsegments hhidden
  obtain ⟨_, hdir, hread⟩ := h
  obtain rfl := Option.some.inj (hfound.symm.trans hdir)
  obtain ⟨other, hother, -, hotherDir, -⟩ := PackageInfo.exists_place_of_read hread
  -- the root under which it is found would contain the directory
  obtain rfl : other = place := FilePath.ofPlace_inj
    (t.isName_of_at? (t.find_eq_ok_iff.1 hother).2) (t.isName_of_at? hat) (hotherDir.symm.trans htarget)
  obtain ⟨steps', hne', hsteps'⟩ := exists_below_of_candidate hbelow hall hne hat hr hother
  exact hne' (hbefore r hr steps' hsteps')

end Named

end SourceRoots

namespace RunConfig

variable {c : RunConfig} {t : FileTree} {res : Resolution}

/-- What is resolved for a module: the package in its directory, which has an import path. -/
theorem resolve_module_eq_ok {roots : SourceRoots} (hmodule : c.testModule.isSome = true)
    (h : c.resolve t roots = .ok res) : ∃ info path,
      PackageInfo.read t roots (c.targetDir t) = .ok info ∧ info.importPath = some path ∧
        res.targetDir = info.dir ∧ res.imports = ⟨[path]⟩ := by
  unfold resolve at h
  split at h
  · simp at h
  · next info hinfo =>
    obtain ⟨imports, himports, hres⟩ := bind_eq_ok_iff.1 h
    obtain rfl := Except.ok.inj hres
    obtain ⟨info', hread, hfault⟩ := bind_eq_ok_iff.1 hinfo
    obtain rfl : info' = info := by
      split at hfault
      · simp at hfault
      · exact Except.ok.inj hfault
    unfold importsFor at himports
    rw [if_pos hmodule] at himports
    split at himports
    · next path hpath => exact ⟨info', path, hread, hpath, rfl, (Except.ok.inj himports).symm⟩
    · simp at himports

/-- **When the module that is to be tested is loaded.**  It is named from the first root that contains it, by
the names down to it.  If its import path comes apart into these names, a load of that path lists the module
exactly if no root before has a package of these names; and if one has, whatever the load lists for the path
is another package. -/
theorem load_lists_target {p : Program} (hmodule : c.testModule.isSome = true)
    (hres : c.resolve t (c.roots t) = .ok res)
    (hload : Program.load t (c.roots t) res.imports .tolerant = .ok p) :
    ∃ before root after names, (c.roots t).all = before ++ root :: after ∧ names ≠ [] ∧
      (root.below? res.targetDir).map (·.map Component.text) = some names ∧
      (∀ r ∈ before, ∀ steps, r.below? res.targetDir = some steps → steps = []) ∧
      res.imports = ⟨[pathText names]⟩ ∧
      (packageSegments (pathText names) = names →
        ((∃ a ∈ p.packages, a.importPath = pathText names ∧ a.dir = res.targetDir) ↔
          ∀ r ∈ before, t.isPackageDirectory (SourceRoots.candidate r names) = false) ∧
        ∀ a ∈ p.packages, a.importPath = pathText names →
          (a.dir = res.targetDir ↔
            ∀ r ∈ before, t.isPackageDirectory (SourceRoots.candidate r names) = false)) := by
  obtain ⟨info, path, hread, hpath, hdir, himports⟩ := resolve_module_eq_ok hmodule hres
  obtain ⟨place, hplace, hsource, hinfoDir, hinfoPath⟩ := PackageInfo.exists_place_of_read hread
  have hat := (t.find_eq_ok_iff.1 hplace).2
  rw [hinfoPath, SourceRoots.importPath?_eq_some_iff, normalized_of_find (t.find_ofPlace hat)] at hpath
  obtain ⟨before, root, after, steps, hall, hbelow, hne, rfl, hbefore⟩ := hpath
  have hnames : steps.map Component.text ≠ [] := mt List.map_eq_nil_iff.1 hne
  rw [hdir, hinfoDir]
  refine ⟨before, root, after, _, hall, hnames, by rw [hbelow]; rfl, hbefore, himports, fun hsegments => ?_⟩
  have hshown := SourceRoots.hasPackage_named hall hbelow hne hsegments hplace hsource hread
  have hiff : ∀ a ∈ p.packages, a.importPath = pathText (steps.map Component.text) →
      (a.dir = .ofPlace place ↔ ∀ r ∈ before,
        t.isPackageDirectory (SourceRoots.candidate r (steps.map Component.text)) = false) := by
    intro a ha hapath
    obtain ⟨found, haFound, hpackage, -⟩ := (Program.mem_packages_iff hload).1 ha
    have hadir : a.dir = found.dir := by rw [haFound]; rfl
    rw [hapath] at hpackage
    rw [hadir]
    constructor
    · intro htarget r hr
      rw [Bool.eq_false_iff]
      exact fun hhidden => SourceRoots.dir_ne_of_hasPackage hall hbelow hne hbefore hsegments hplace hpackage
        ⟨r, hr, hhidden⟩ htarget
    · exact fun hnone => (hpackage.unique (hshown hnone)) ▸ hinfoDir
  refine ⟨⟨?_, fun hnone => ?_⟩, hiff⟩
  · rintro ⟨a, ha, hapath, hadir⟩
    exact (hiff a ha hapath).1 hadir
  · have hreached : ∃ entry ∈ res.imports.paths, Relation.ReflTransGen ((c.roots t).Imports t)
        (trimmed entry) (pathText (steps.map Component.text)) := by
      rw [himports]
      refine ⟨_, List.mem_cons_self, ?_⟩
      rw [trimmed_pathText hnames hsegments]
    exact ⟨Program.checked (Program.surroundingsOf t (c.roots t) res.imports)
      (pathText (steps.map Component.text), info),
      (Program.mem_packages_iff hload).2 ⟨info, rfl, hshown hnone, hreached⟩, rfl, hinfoDir⟩

/-! ## A module beside two other roots -/

/-- A test of a module below the last of three roots. -/
def outsideConfig : RunConfig :=
  { RunConfig.ofFramework ⟨"/fw"⟩ with testModule := some ⟨"/ext/m"⟩, sourceRoots := [⟨"sub"⟩, ⟨"/ext"⟩] }

/-- The module, with the other roots empty. -/
def outsideTree : FileTree :=
  .ofTexts [(["fw", "sub", "x.rs"], ""), (["ext", "m", "x.rs"], "struct B;")]

/-- The module, and another package of its name below a root before. -/
def coveredTree : FileTree :=
  .ofTexts [(["fw", "sub", "m", "x.rs"], "struct A;"), (["ext", "m", "x.rs"], "struct B;")]

/-- In both, what is asked for is the path of the module. -/
theorem resolve_outsideConfig {t : FileTree} (ht : t ∈ [outsideTree, coveredTree]) : ∃ res,
    outsideConfig.resolve t (outsideConfig.roots t) = .ok res ∧ res.targetDir = ⟨"/ext/m"⟩ ∧
      res.imports = ⟨["m"]⟩ := by
  have hres : ∀ t ∈ [outsideTree, coveredTree],
      (outsideConfig.resolve t (outsideConfig.roots t)).toOption.map
        (fun res => (res.targetDir, res.imports.paths)) = some (⟨"/ext/m"⟩, ["m"]) := by decide +kernel
  obtain ⟨res, hok, heq⟩ := Option.map_eq_some_iff.1 (hres t ht)
  obtain ⟨hdir, hpaths⟩ := Prod.mk.inj heq
  exact ⟨res, toOption_eq_some_iff.1 hok, hdir, congrArg ImportSet.mk hpaths⟩

/-- The module is loaded. -/
theorem load_lists_target_outside : ∃ res p, outsideConfig.testModule.isSome = true ∧
    outsideConfig.resolve outsideTree (outsideConfig.roots outsideTree) = .ok res ∧
    Program.load outsideTree (outsideConfig.roots outsideTree) res.imports .tolerant = .ok p ∧
    ∃ a ∈ p.packages, a.importPath = "m" ∧ a.dir = res.targetDir := by
  obtain ⟨res, hres, hdir, himports⟩ := resolve_outsideConfig List.mem_cons_self
  obtain ⟨p, hp⟩ : ∃ p, Program.load outsideTree (outsideConfig.roots outsideTree) res.imports .tolerant =
      .ok p := ⟨_, Program.load_eq_ok_iff.2 ⟨by simp [himports], rfl, nofun⟩⟩
  obtain ⟨before, root, after, names, hall, -, hnames, -, -, hlisted⟩ := load_lists_target rfl hres hp
  rw [hdir] at hnames
  have hbelow : ∀ r ∈ (outsideConfig.roots outsideTree).all, (r.below? ⟨"/ext/m"⟩).map
      (·.map Component.text) = if r = ⟨"/ext"⟩ then some ["m"] else none := by decide +kernel
  -- the module is below the last root alone, which does not come twice
  obtain ⟨rfl, rfl⟩ : root = ⟨"/ext"⟩ ∧ names = ["m"] := by
    rw [hbelow root (by simp [hall])] at hnames
    split at hnames
    · next hroot => exact ⟨hroot, (Option.some.inj hnames).symm⟩
    · cases hnames
  have hnodup : (before ++ ⟨"/ext"⟩ :: after).Nodup := hall ▸ by decide +kernel
  have hbefore : ∀ r ∈ before, r ∈ (outsideConfig.roots outsideTree).all ∧ r ≠ ⟨"/ext"⟩ := fun r hr =>
    ⟨by simp [hall, hr], fun h => (List.nodup_append.1 hnodup).2.2 r hr _ List.mem_cons_self h⟩
  have hnone : ∀ r ∈ (outsideConfig.roots outsideTree).all, r ≠ ⟨"/ext"⟩ →
      outsideTree.isPackageDirectory (SourceRoots.candidate r ["m"]) = false := by decide +kernel
  obtain ⟨a, ha, hpath, hadir⟩ := (hlisted (by decide)).1.2 fun r hr =>
    hnone r (hbefore r hr).1 (hbefore r hr).2
  exact ⟨res, p, rfl, hres, hp, a, ha, hpath, hadir⟩

/-- **Not every module that is to be tested is loaded**: the package that is found under the path of the
module may be another one. -/
theorem not_forall_target_loaded : ¬ ∀ (c : RunConfig) (t : FileTree) (res : Resolution) (p : Program),
    c.testModule.isSome = true → c.resolve t (c.roots t) = .ok res →
      Program.load t (c.roots t) res.imports .tolerant = .ok p →
      ∀ path ∈ res.imports.paths.head?, (∃ a ∈ p.packages, a.importPath = path) →
        ∃ a ∈ p.packages, a.importPath = path ∧ a.dir = res.targetDir := by
  intro hall
  obtain ⟨res, hres, hdir, himports⟩ := resolve_outsideConfig (List.mem_cons_of_mem _ List.mem_cons_self)
  obtain ⟨p, hp, hlisted⟩ : ∃ p, Program.load coveredTree (outsideConfig.roots coveredTree) res.imports
      .tolerant = .ok p ∧ p.packages.map (fun a => (a.importPath, a.dir)) = [("m", ⟨"/fw/sub/m"⟩)] := by
    rw [himports]
    exact Program.exists_load (by simp) (by decide +kernel)
  obtain ⟨a, hpackages, ha⟩ := List.map_eq_singleton_iff.1 hlisted
  obtain ⟨hpath, hadir⟩ := Prod.mk.inj ha
  obtain ⟨b, hb, -, hbdir⟩ := hall _ _ res p rfl hres hp "m" (by simp [himports])
    ⟨a, by simp [hpackages], hpath⟩
  rw [hpackages, List.mem_singleton] at hb
  rw [hb, hadir, hdir] at hbdir
  exact absurd hbdir (by decide)

end RunConfig

end ModelPool
