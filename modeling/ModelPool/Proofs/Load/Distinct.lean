import ModelPool.Files.Texts
import ModelPool.Proofs.Check.Fragments
import ModelPool.Proofs.Load.Apart
import ModelPool.Proofs.Load.Counted

/-!
# Proofs/Load/Distinct — each directory is loaded once

    imports  modules::sale  sale
    roots    /  /modules                 both lead to  /modules/sale

A load lists a package once for each path that it is reached by.  Where no root lies inside another, and all
entries are of plain names, a directory is reached by one path only, so no file is checked twice and no
fragment is merged twice.

* `load_lists_dirs_once` — no directory is listed twice.
* `not_forall_dirs_distinct` — what lists one twice.
-/

namespace ModelPool

open FileTree Source

/-! ## Files of packages -/

/-- The source files of a directory are distinct. -/
theorem FileTree.nodup_sourceFiles {t : FileTree} {p : FilePath} {d : Place} {files : List FilePath}
    (h : t.find p = .ok (d, .directory)) (hfiles : t.sourceFiles p = .ok files) : files.Nodup := by
  rw [sourceFiles, list_of_find h] at hfiles
  obtain rfl := Except.ok.inj hfiles
  exact ((t.nodup_namesIn d).map_on fun n hn m hm =>
    child_inj p (isName_of_mem_namesIn hn) (isName_of_mem_namesIn hm)).filter _

namespace PackageInfo

variable {t : FileTree} {roots : SourceRoots} {dir : FilePath} {info : PackageInfo}

/-- Files know the paths that they are read from. -/
theorem paths_of_mapM {paths : List FilePath} {files : List SourceFile}
    (h : paths.mapM (readFile t) = .ok files) : files.map SourceFile.path = paths := by
  have hall := mapM_eq_ok_iff.1 h
  clear h
  induction hall with
  | nil => rfl
  | cons hfirst _ ih =>
    rw [List.map_cons, ih]
    unfold readFile at hfirst
    split at hfirst
    · rw [← Except.ok.inj hfirst]
    · simp at hfirst

/-- **The files of a package** are distinct, and stand in its directory. -/
theorem paths_of_read (h : read t roots dir = .ok info) : ∃ place, info.dir = .ofPlace place ∧
    (info.files.map SourceFile.path).Nodup ∧
    ∀ path ∈ info.files.map SourceFile.path, ∃ name e, t.find path = .ok (place ++ [name], e) := by
  obtain ⟨hdir, paths, files, hpaths, -, hfiles, rfl⟩ := read_eq_ok_iff.1 h
  obtain ⟨place, hplace⟩ := isDirectory_iff.1 hdir
  have hat := (t.find_eq_ok_iff.1 hplace).2
  rw [normalized_of_find hplace] at hpaths ⊢
  have hcanonical := t.find_ofPlace hat
  have hread : (ofFiles t roots (.ofPlace place) files).files.map SourceFile.path = paths :=
    paths_of_mapM hfiles
  rw [hread]
  refine ⟨place, rfl, nodup_sourceFiles hcanonical hpaths, fun path hpath => ?_⟩
  obtain ⟨name, rfl, ⟨bytes, hfile⟩, -⟩ := (mem_sourceFiles hcanonical hpaths).1 hpath
  exact ⟨name, _, (t.find_child hcanonical (t.isName_of_at? hfile name (by simp))).2 hfile⟩

end PackageInfo

/-! ## Packages of a load -/

namespace Program

variable {t : FileTree} {roots : SourceRoots} {imports : ImportSet} {mode : LoadMode} {p : Program}

/-- A package with a file has the directory that the file stands in. -/
theorem dir_eq_of_path_eq (h : load t roots imports mode = .ok p) {a b : Package}
    (ha : a ∈ p.packages) (hb : b ∈ p.packages) {f g : SourceFile} (hf : f ∈ a.files)
    (hg : g ∈ b.files) (hpath : f.path = g.path) : a.dir = b.dir := by
  obtain ⟨info, hchecked, ⟨_, -, hread⟩, -⟩ := (mem_packages_iff h).1 ha
  obtain ⟨info', hchecked', ⟨_, -, hread'⟩, -⟩ := (mem_packages_iff h).1 hb
  rw [hchecked] at hf ⊢
  rw [hchecked'] at hg ⊢
  obtain ⟨place, hdir, -, hplace⟩ := PackageInfo.paths_of_read hread
  obtain ⟨place', hdir', -, hplace'⟩ := PackageInfo.paths_of_read hread'
  obtain ⟨name, e, hfind⟩ := hplace _ (List.mem_map_of_mem hf)
  obtain ⟨name', e', hfind'⟩ := hplace' _ (List.mem_map_of_mem hg)
  rw [← hpath, hfind] at hfind'
  have hsame := (Prod.mk.inj (Except.ok.inj hfind')).1
  obtain ⟨rfl, -⟩ := List.append_inj' hsame rfl
  exact hdir.trans hdir'.symm

/-- **Each directory is loaded once.**  If no root lies inside another, and the import set and the `use`
entries of what is loaded are of plain names, no directory is listed twice, so no file is listed twice,
under one package or under two, and fragments that stand in one file belong to one package. -/
theorem load_lists_dirs_once (h : load t roots imports mode = .ok p) (hapart : roots.LieApart t)
    (hentries : ∀ entry ∈ imports.paths, IsPlainPath entry)
    (huses : ∀ a ∈ p.packages, PlainUses a.files) :
    (p.packages.map Package.dir).Nodup ∧
      (p.packages.flatMap fun a => a.files.map SourceFile.path).Nodup ∧
      ∀ x ∈ p.fragments, ∀ y ∈ p.fragments, x.2.file = y.2.file → x.1 = y.1 := by
  have hplain : ∀ a ∈ p.packages, IsPlainPath a.importPath := by
    intro a ha
    rw [packages_of_load h] at ha
    obtain ⟨x, hx, rfl⟩ := List.mem_map.1 ha
    exact isPlainPath_of_loaded hentries (fun y hy => huses _ (mem_packages_of_loaded h hy)) hx
  have hdir : ∀ a ∈ p.packages, ∀ b ∈ p.packages, a.dir = b.dir → a = b := by
    intro a ha b hb hdir
    obtain ⟨info, hchecked, hinfo, -⟩ := (mem_packages_iff h).1 ha
    obtain ⟨info', hchecked', hinfo', -⟩ := (mem_packages_iff h).1 hb
    refine eq_of_importPath_eq h ha hb (hapart.path_eq (hplain a ha) (hplain b hb) hinfo hinfo' ?_)
    rw [hchecked, hchecked'] at hdir
    exact hdir
  have hnodup : p.packages.Nodup := (nodup_importPaths h).of_map _
  refine ⟨hnodup.map_on hdir, List.nodup_flatMap.2 ⟨fun a ha => ?_, ?_⟩, fun x hx y hy hfile => ?_⟩
  · obtain ⟨info, hchecked, ⟨_, -, hread⟩, -⟩ := (mem_packages_iff h).1 ha
    rw [hchecked]
    obtain ⟨-, -, hpaths, -⟩ := PackageInfo.paths_of_read hread
    exact hpaths
  · refine hnodup.pairwise_of_forall_ne fun a ha b hb hne path hpath hpath' => ?_
    obtain ⟨f, hf, rfl⟩ := List.mem_map.1 hpath
    obtain ⟨g, hg, hsame⟩ := List.mem_map.1 hpath'
    exact hne (hdir a ha b hb (dir_eq_of_path_eq h ha hb hf hg hsame.symm))
  · have hstands : ∀ {x}, x ∈ p.fragments → x.1 ∈ p.packages ∧ ∃ f ∈ x.1.files, x.2.file = f.path := by
      rintro x hx
      obtain ⟨a, ha, hx⟩ := List.mem_flatMap.1 hx
      obtain ⟨m, hm, rfl⟩ := List.mem_map.1 hx
      refine ⟨ha, ?_⟩
      obtain ⟨info, hchecked, -⟩ := (mem_packages_iff h).1 ha
      rw [hchecked] at hm ⊢
      obtain ⟨f, hf, i, -, rfl⟩ := SourceFile.mem_checkAll.1 hm
      exact ⟨f, hf, rfl⟩
    obtain ⟨hxmem, f, hf, hxfile⟩ := hstands hx
    obtain ⟨hymem, g, hg, hyfile⟩ := hstands hy
    rw [hxfile, hyfile] at hfile
    exact hdir _ hxmem _ hymem (dir_eq_of_path_eq h hxmem hymem hf hg hfile)

/-! ## Paths of identifiers -/

/-- **A path of identifiers.** -/
def IsWordPath (path : String) : Prop :=
  ∃ names, names ≠ [] ∧ (∀ s ∈ names, isWord s.toList = true) ∧ pathText names = path

theorem IsWordPath.isPlainPath {path : String} (h : IsWordPath path) : IsPlainPath path := by
  obtain ⟨names, hne, hwords, heq⟩ := h
  exact ⟨names, hne, fun s hs => isPlainName_of_isWord (hwords s hs), heq⟩

/-! ## Two roots that lie apart -/

/-- Two packages below two roots that import each other. -/
def apartTree : FileTree :=
  .ofTexts [(["fw", "m", "x.rs"], "use n::k;\nstruct A;"),
    (["ext", "n", "k", "x.rs"], "use m::A;")]

/-- The roots of these packages. -/
def apartRoots : SourceRoots := .ofFramework apartTree ⟨"/fw"⟩ [⟨"/ext"⟩]

theorem apartRoots_lieApart : apartRoots.LieApart apartTree := by
  have hall : apartRoots.all = [⟨"/fw"⟩, ⟨"/ext"⟩] := by decide +kernel
  have hleads : ∀ root ∈ apartRoots.all, ∃ n, apartTree.find root = .ok ([n], .directory) ∧
      root = .ofPlace [n] := by
    rw [hall]
    refine List.forall_mem_cons.2 ⟨⟨"fw", ?_, by decide⟩,
      List.forall_mem_singleton.2 ⟨"ext", ?_, by decide⟩⟩
    · exact toOption_eq_some_iff.1 (by decide +kernel)
    · exact toOption_eq_some_iff.1 (by decide +kernel)
  intro root hroot other hother d d' hd hd' hprefix
  obtain ⟨n, hn, rfl⟩ := hleads root hroot
  obtain ⟨n', hn', rfl⟩ := hleads other hother
  obtain rfl := hd.unique (.inr hn)
  obtain rfl := hd'.unique (.inr hn')
  obtain rfl : n = n' := by simpa using hprefix
  rfl

/-- The paths of a package's entries. -/
def usePaths (a : Package) : List (List String) := a.files.flatMap fun f => f.unit.uses.map UseEntry.path

/-- Entries whose paths are made of identifiers name plain names only. -/
theorem plainUses_of_usePaths {packages : List Package} {paths : List (List (List String))}
    (h : packages.map usePaths = paths)
    (hwords : ∀ s ∈ paths.flatten.flatten, isWord s.toList = true) :
    ∀ a ∈ packages, PlainUses a.files := by
  intro a ha f hf u hu s hs
  have hpath : u.path ∈ usePaths a := List.mem_flatMap.2 ⟨f, hf, List.mem_map_of_mem hu⟩
  have hlist : usePaths a ∈ paths := h ▸ List.mem_map_of_mem ha
  exact isPlainName_of_isWord (hwords s
    (List.mem_flatten.2 ⟨_, List.mem_flatten.2 ⟨_, hlist, hpath⟩, hs⟩))

/-- Both packages are listed once, although one of them is asked for twice. -/
theorem load_lists_dirs_once_apart : ∃ p, load apartTree apartRoots ⟨["m", "n::k"]⟩ .tolerant = .ok p ∧
    apartRoots.LieApart apartTree ∧
    (∀ entry ∈ (⟨["m", "n::k"]⟩ : ImportSet).paths, IsPlainPath entry) ∧
    (∀ a ∈ p.packages, PlainUses a.files) ∧
    p.packages.map Package.dir = [⟨"/ext/n/k"⟩, ⟨"/fw/m"⟩] ∧ (p.packages.map Package.dir).Nodup := by
  obtain ⟨p, hp, hpackages⟩ : ∃ p, load apartTree apartRoots ⟨["m", "n::k"]⟩ .tolerant = .ok p ∧
      p.packages.map (fun a => (a.dir, usePaths a)) =
        [(⟨"/ext/n/k"⟩, [["m", "A"]]), (⟨"/fw/m"⟩, [["n", "k"]])] :=
    exists_load (by simp) (by decide +kernel)
  have hdirs : p.packages.map Package.dir = [⟨"/ext/n/k"⟩, ⟨"/fw/m"⟩] := by
    simpa [Function.comp_def] using congrArg (List.map Prod.fst) hpackages
  have hentries : ∀ entry ∈ (⟨["m", "n::k"]⟩ : ImportSet).paths, IsPlainPath entry :=
    List.forall_mem_cons.2 ⟨IsWordPath.isPlainPath ⟨["m"], by simp, by decide, by decide⟩,
      List.forall_mem_singleton.2
        (IsWordPath.isPlainPath ⟨["n", "k"], by simp, by decide, by decide⟩)⟩
  have hpaths : p.packages.map usePaths = [[["m", "A"]], [["n", "k"]]] := by
    simpa [Function.comp_def] using congrArg (List.map Prod.snd) hpackages
  have huses : ∀ a ∈ p.packages, PlainUses a.files := plainUses_of_usePaths hpaths (by decide)
  exact ⟨p, hp, apartRoots_lieApart, hentries, huses, hdirs,
    (load_lists_dirs_once hp apartRoots_lieApart hentries huses).1⟩

/-! ## Two ways to one directory -/

/-- A package below two roots, one of which lies inside the other. -/
def nestedTree : FileTree := .ofTexts [(["modules", "sale", "x.rs"], "struct A;")]

/-- A package that is used by its path, and by one with a comment in it that leads there as well. -/
def remarkTree : FileTree :=
  .ofTexts [(["m", "x.rs"], "use b::c;\nuse a// /../b\n::c as d;"), (["a", "x.rs"], ""),
    (["b", "c", "x.rs"], "struct A;")]

/-- **A directory may be loaded twice**: under the paths from two roots, one of which lies inside the other;
and if none does, by an entry whose path is not made of plain names. -/
theorem not_forall_dirs_distinct :
    (¬ ∀ (t : FileTree) (framework : FilePath) (others : List FilePath) (imports : ImportSet)
        (p : Program), (∀ entry ∈ imports.paths, IsWordPath entry) →
        load t (.ofFramework t framework others) imports .tolerant = .ok p →
        (p.packages.map Package.dir).Nodup) ∧
      ¬ ∀ (t : FileTree) (framework : FilePath) (others : List FilePath) (imports : ImportSet)
        (p : Program), (∀ entry ∈ imports.paths, IsWordPath entry) →
        (SourceRoots.ofFramework t framework others).LieApart t →
        load t (.ofFramework t framework others) imports .tolerant = .ok p →
        (p.packages.map Package.dir).Nodup := by
  constructor
  · intro hall
    obtain ⟨p, hp, hdirs⟩ : ∃ p, load nestedTree (.ofFramework nestedTree ⟨"/"⟩ [⟨"modules"⟩])
        ⟨["modules::sale", "sale"]⟩ .tolerant = .ok p ∧
        p.packages.map Package.dir = [⟨"/modules/sale"⟩, ⟨"/modules/sale"⟩] :=
      exists_load (by simp) (by decide +kernel)
    have hnodup := hall _ _ _ _ p (List.forall_mem_cons.2
      ⟨⟨["modules", "sale"], by simp, by decide, by decide⟩, List.forall_mem_singleton.2
        ⟨["sale"], by simp, by decide, by decide⟩⟩) hp
    rw [hdirs] at hnodup
    simp at hnodup
  · intro hall
    obtain ⟨p, hp, hdirs⟩ : ∃ p, load remarkTree (.ofFramework remarkTree ⟨"/"⟩ []) ⟨["m"]⟩ .tolerant =
        .ok p ∧ p.packages.map Package.dir = [⟨"/b/c"⟩, ⟨"/b/c"⟩, ⟨"/m"⟩] :=
      exists_load (by simp) (by decide +kernel)
    have hapart : (SourceRoots.ofFramework remarkTree ⟨"/"⟩ []).LieApart remarkTree := by
      intro root hroot other hother d d' hd hd' hprefix
      exact (List.mem_singleton.1 hroot).trans (List.mem_singleton.1 hother).symm
    have hnodup := hall _ _ _ _ p (List.forall_mem_singleton.2 ⟨["m"], by simp, by decide, by decide⟩)
      hapart hp
    rw [hdirs] at hnodup
    simp at hnodup

end Program

end ModelPool
