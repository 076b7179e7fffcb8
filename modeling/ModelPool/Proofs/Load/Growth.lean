import ModelPool.Proofs.Files.Growth
import ModelPool.Proofs.Load.Packages
import ModelPool.Proofs.Results

/-!
# Proofs/Load/Growth — packages in a tree that grows

When files are added to the directory of a package, no package comes or goes, so every `use` entry points
to what it pointed to.  The packages elsewhere are read as before, and the one that has grown keeps its
files and its imports.

* `classify_eq` — entries are classified as before.
* `hasPackage_iff` — packages elsewhere are the same.
* `exists_grown`, `exists_before` — the package that has grown.
-/

namespace ModelPool

namespace FileTree

/-- The name is that of a source file. -/
def isSourceName (name : String) : Bool :=
  isSourcePath ⟨name⟩ && !isHiddenName name

theorem isSourcePath_child (p : FilePath) {name : String} (hn : IsName name) :
    isSourcePath (p.child name) = isSourcePath ⟨name⟩ := by
  simp only [isSourcePath, FilePath.extension?, fileName?_child p hn, fileName?_name hn]

/-- The source files of a directory are the files that are named so. -/
theorem isSourceFile_child {t : FileTree} {p : FilePath} {d : Place} {name : String}
    (h : t.find p = .ok (d, .directory)) (hn : IsName name) :
    t.isSourceFile (p.child name) = true ↔
      (∃ bytes, t.at? (d ++ [name]) = some (.file bytes)) ∧ isSourceName name = true := by
  have hfile : t.isFile (p.child name) = true ↔ ∃ bytes, t.at? (d ++ [name]) = some (.file bytes) := by
    rw [isFile_iff]
    constructor
    · rintro ⟨q, bytes, hq⟩
      obtain ⟨hplace, hat⟩ := t.find_eq_ok_iff.1 hq
      obtain rfl := t.eq_of_place_child h hn hplace
      exact ⟨bytes, hat⟩
    · rintro ⟨bytes, hat⟩
      exact ⟨_, bytes, (t.find_child h hn).2 hat⟩
  rw [isSourceFile, isSourcePath_child p hn, fileName?_child p hn, Bool.and_assoc, Bool.and_eq_true,
    hfile]
  rfl

/-- **A directory holds a source file.** -/
def HoldsSource (t : FileTree) (d : Place) : Prop :=
  ∃ name bytes, t.at? (d ++ [name]) = some (.file bytes) ∧ isSourceName name = true

theorem list_of_find {t : FileTree} {p : FilePath} {d : Place}
    (h : t.find p = .ok (d, .directory)) : t.list p = .ok ((t.namesIn d).map p.child) := by
  simp only [list, h, bind, Except.bind]

/-- **The source files of a directory.** -/
theorem mem_sourceFiles {t : FileTree} {p : FilePath} {d : Place} {files : List FilePath}
    (h : t.find p = .ok (d, .directory)) (hfiles : t.sourceFiles p = .ok files) {file : FilePath} :
    file ∈ files ↔ ∃ name, file = p.child name ∧
      (∃ bytes, t.at? (d ++ [name]) = some (.file bytes)) ∧ isSourceName name = true := by
  rw [sourceFiles, list_of_find h] at hfiles
  obtain rfl := Except.ok.inj hfiles
  rw [List.mem_filter, List.mem_map]
  constructor
  · rintro ⟨⟨name, hname, rfl⟩, hsource⟩
    exact ⟨name, rfl, (isSourceFile_child h (isName_of_mem_namesIn hname)).1 hsource⟩
  · rintro ⟨name, rfl, ⟨bytes, hat⟩, hsource⟩
    have hname : name ∈ t.namesIn d := mem_namesIn.2 (by rw [hat]; rfl)
    exact ⟨⟨name, hname, rfl⟩,
      (isSourceFile_child h (isName_of_mem_namesIn hname)).2 ⟨⟨bytes, hat⟩, hsource⟩⟩

/-- A name is among them if a file of it stands in the directory. -/
theorem child_mem_sourceFiles_iff {t : FileTree} {p : FilePath} {d : Place} {files : List FilePath}
    (h : t.find p = .ok (d, .directory)) (hfiles : t.sourceFiles p = .ok files) {name : String}
    (hn : IsName name) : p.child name ∈ files ↔
      (∃ bytes, t.at? (d ++ [name]) = some (.file bytes)) ∧ isSourceName name = true := by
  rw [mem_sourceFiles h hfiles]
  constructor
  · rintro ⟨m, hm, hat, hsource⟩
    obtain ⟨bytes, hfile⟩ := hat
    obtain rfl := child_inj p hn (t.isName_of_at? hfile m (by simp)) hm
    exact ⟨⟨bytes, hfile⟩, hsource⟩
  · rintro ⟨hat, hsource⟩
    exact ⟨name, rfl, hat, hsource⟩

theorem sourceFiles_of_find {t : FileTree} {p : FilePath} {d : Place}
    (h : t.find p = .ok (d, .directory)) : ∃ files, t.sourceFiles p = .ok files := by
  simp only [sourceFiles, list, h, bind, Except.bind, Except.map]
  exact ⟨_, rfl⟩

/-- A directory that holds a source file is that of a package. -/
theorem isPackageDirectory_of_holdsSource {t : FileTree} {p : FilePath} {d : Place}
    (h : t.find p = .ok (d, .directory)) (hd : t.HoldsSource d) : t.isPackageDirectory p = true := by
  obtain ⟨files, hfiles⟩ := sourceFiles_of_find h
  obtain ⟨name, bytes, hat, hsource⟩ := hd
  have hmem : p.child name ∈ files :=
    (mem_sourceFiles h hfiles).2 ⟨name, rfl, ⟨bytes, hat⟩, hsource⟩
  have hdir : t.isDirectory p = true := isDirectory_iff.2 ⟨d, h⟩
  simp only [isPackageDirectory, hdir, hfiles, Bool.true_and]
  cases files with
  | nil => exact absurd hmem List.not_mem_nil
  | cons _ _ => rfl

/-- And there are no others. -/
theorem isPackageDirectory_iff {t : FileTree} {p : FilePath} : t.isPackageDirectory p = true ↔
    ∃ d, t.find p = .ok (d, .directory) ∧ t.HoldsSource d := by
  refine ⟨fun h => ?_, fun ⟨d, hfind, hd⟩ => isPackageDirectory_of_holdsSource hfind hd⟩
  obtain ⟨hdir, hsource⟩ := Bool.and_eq_true_iff.1 h
  obtain ⟨d, hfind⟩ := isDirectory_iff.1 hdir
  obtain ⟨files, hfiles⟩ := sourceFiles_of_find hfind
  rw [hfiles] at hsource
  obtain ⟨file, hfile⟩ := List.exists_mem_of_ne_nil files (by rintro rfl; simp at hsource)
  obtain ⟨name, -, ⟨bytes, hat⟩, hname⟩ := (mem_sourceFiles hfind hfiles).1 hfile
  exact ⟨d, hfind, name, bytes, hat, hname⟩

/-- **A package that is found is found** in a tree that has all directories and files of the first one, whatever
these files hold. -/
theorem isSome_find?_of_kept {t u : FileTree} {roots : SourceRoots} {path : String}
    (hcurrent : u.current = t.current)
    (hdirectories : ∀ place, t.at? place = some .directory → u.at? place = some .directory)
    (hfiles : ∀ place bytes, t.at? place = some (.file bytes) → ∃ bytes', u.at? place = some (.file bytes'))
    (h : (roots.find? t path).isSome = true) : (roots.find? u path).isSome = true := by
  unfold SourceRoots.find? SourceRoots.findSegments? at h ⊢
  split
  · next hnone =>
    rw [if_pos hnone] at h
    exact h
  · next hsegments =>
    rw [if_neg hsegments, List.find?_isSome] at h
    obtain ⟨dir, hdir, hpackage⟩ := h
    obtain ⟨d, hfind, name, bytes, hat, hname⟩ := isPackageDirectory_iff.1 hpackage
    obtain ⟨bytes', hat'⟩ := hfiles _ bytes hat
    exact List.find?_isSome.2 ⟨dir, hdir, isPackageDirectory_iff.2
      ⟨d, find_directory_of_kept hcurrent hdirectories hfind, name, bytes', hat', hname⟩⟩

namespace Grows

variable {d q : Place} {t u : FileTree} {p : FilePath}

/-! ## Directories of packages -/

theorem holdsSource (h : Grows d t u) (hd : t.HoldsSource d) : u.HoldsSource d := by
  obtain ⟨name, bytes, hat, hsource⟩ := hd
  exact ⟨name, bytes, h.kept _ _ hat, hsource⟩

/-- Another directory has the source files that it had. -/
theorem sourceFiles_eq (h : Grows d t u) (hp : t.find p = .ok (q, .directory)) (hq : q ≠ d) :
    u.sourceFiles p = t.sourceFiles p := by
  rw [sourceFiles, sourceFiles, h.list_eq hp hq, list_of_find hp]
  simp only [Except.map]
  congr 1
  refine List.filter_congr fun file hfile => ?_
  obtain ⟨name, hname, rfl⟩ := List.mem_map.1 hfile
  have hn := isEntryName_of_mem_namesIn hname
  rw [isSourceFile, isSourceFile, isFile, isFile, h.find_child_eq hp hq hn]

/-- **No directory of a package comes or goes.** -/
theorem isPackageDirectory_eq (h : Grows d t u) (hd : t.HoldsSource d) :
    u.isPackageDirectory = t.isPackageDirectory := by
  funext p
  cases hp : t.isDirectory p with
  | false => simp [isPackageDirectory, h.isDirectory_eq, hp]
  | true =>
    obtain ⟨q, hq⟩ := isDirectory_iff.1 hp
    by_cases hqd : q = d
    · subst hqd
      rw [isPackageDirectory_of_holdsSource hq hd,
        isPackageDirectory_of_holdsSource (h.find_directory_iff.2 hq) (h.holdsSource hd)]
    · simp only [isPackageDirectory, h.isDirectory_eq, h.sourceFiles_eq hq hqd]

variable {roots : SourceRoots}

/-- Packages are found where they were found. -/
theorem find?_eq (h : Grows d t u) (hd : t.HoldsSource d) : roots.find? u = roots.find? t := by
  funext path
  simp only [SourceRoots.find?, SourceRoots.findSegments?, h.isPackageDirectory_eq hd]

/-- **Entries are classified as before.** -/
theorem classify_eq (h : Grows d t u) (hd : t.HoldsSource d) :
    roots.classify u = roots.classify t := by
  funext entry
  simp only [SourceRoots.classify, SourceRoots.packagePrefix?, h.find?_eq hd]

/-! ## Packages elsewhere -/

theorem importPath?_eq (h : Grows d t u) (hp : t.isDirectory p = true) :
    roots.importPath? u p = roots.importPath? t p := by
  simp only [SourceRoots.importPath?, h.normalized_eq hp]

/-- The files of another package are read as before. -/
theorem readFile_eq (h : Grows d t u) (hp : t.find p = .ok (q, .directory)) (hq : q ≠ d)
    {files : List FilePath} (hfiles : t.sourceFiles p = .ok files) :
    files.mapM (PackageInfo.readFile u) = files.mapM (PackageInfo.readFile t) := by
  refine mapM_congr fun file hfile => ?_
  obtain ⟨name, rfl, ⟨bytes, hat⟩, -⟩ := (mem_sourceFiles hp hfiles).1 hfile
  have hn : IsEntryName name := t.isEntryName_of_at? hat name (by simp)
  simp only [PackageInfo.readFile, readCharacters, readBytes, h.find_child_eq hp hq hn]

theorem importsOf_eq (h : Grows d t u) (hd : t.HoldsSource d) :
    PackageInfo.importsOf u roots = PackageInfo.importsOf t roots := by
  funext own files
  have hdependency : PackageInfo.dependency? u roots = PackageInfo.dependency? t roots := by
    funext entry
    simp only [PackageInfo.dependency?, h.classify_eq hd]
  simp only [PackageInfo.importsOf, hdependency]

theorem ofFiles_eq (h : Grows d t u) (hd : t.HoldsSource d) (hp : t.isDirectory p = true)
    (files : List SourceFile) :
    PackageInfo.ofFiles u roots p files = PackageInfo.ofFiles t roots p files := by
  simp only [PackageInfo.ofFiles, h.importPath?_eq hp, h.importsOf_eq hd]

/-- **Another package is read as before.** -/
theorem read_eq (h : Grows d t u) (hd : t.HoldsSource d) (hp : t.find p = .ok (q, .directory))
    (hq : q ≠ d) : PackageInfo.read u roots p = PackageInfo.read t roots p := by
  have hdir : t.isDirectory p = true := isDirectory_iff.2 ⟨q, hp⟩
  have hcanonical : t.find (.ofPlace q) = .ok (q, .directory) :=
    t.find_ofPlace (t.find_eq_ok_iff.1 hp).2
  have hcanonicalDir : t.isDirectory (.ofPlace q) = true := isDirectory_iff.2 ⟨q, hcanonical⟩
  obtain ⟨files, hfiles⟩ := sourceFiles_of_find hcanonical
  have hread : ∀ w : FileTree, w.isDirectory p = true → w.normalized p = .ofPlace q →
      w.sourceFiles (.ofPlace q) = .ok files → PackageInfo.read w roots p =
        if files = [] then .error (.noSources (.ofPlace q))
        else (files.mapM (PackageInfo.readFile w)).map (PackageInfo.ofFiles w roots (.ofPlace q)) := by
    intro w hwdir hwnormal hwfiles
    simp only [PackageInfo.read, hwdir, if_true, hwnormal, PackageInfo.readCanonical,
      PackageInfo.sourceFilesOf, hwfiles]
    cases files with
    | nil => simp [bind, Except.bind]
    | cons file r => simp [bind, Except.bind, Except.map, pure, Except.pure]
  have hfilesU : u.sourceFiles (.ofPlace q) = .ok files := by
    rw [h.sourceFiles_eq hcanonical hq, hfiles]
  have hofFiles : PackageInfo.ofFiles u roots (.ofPlace q) =
      PackageInfo.ofFiles t roots (.ofPlace q) := funext (h.ofFiles_eq hd hcanonicalDir)
  rw [hread u (by rw [h.isDirectory_eq, hdir])
      (normalized_of_find (h.find_directory_iff.2 hp)) hfilesU,
    hread t hdir (normalized_of_find hp) hfiles, h.readFile_eq hcanonical hq hfiles, hofFiles]

/-- **Packages elsewhere are the same.** -/
theorem hasPackage_iff (h : Grows d t u) (hd : t.HoldsSource d) {path : String}
    {info : PackageInfo} (hinfo : info.dir ≠ .ofPlace d) :
    roots.HasPackage u path info ↔ roots.HasPackage t path info := by
  unfold SourceRoots.HasPackage
  rw [h.find?_eq hd]
  refine exists_congr fun dir => and_congr_right fun hdir => ?_
  have hpackage := SourceRoots.isPackageDirectory_of_find? hdir
  have hdirectory : t.isDirectory dir = true := (Bool.and_eq_true_iff.1 hpackage).1
  obtain ⟨q, hq⟩ := isDirectory_iff.1 hdirectory
  by_cases hqd : q = d
  · subst hqd
    have hfalse : ∀ w : FileTree, w.find dir = .ok (q, .directory) →
        ¬ PackageInfo.read w roots dir = .ok info := by
      intro w hw hread
      obtain ⟨-, paths, files, -, -, -, rfl⟩ := PackageInfo.read_eq_ok_iff.1 hread
      exact hinfo (normalized_of_find hw)
    exact iff_of_false (hfalse u (h.find_directory_iff.2 hq)) (hfalse t hq)
  · rw [h.read_eq hd hq hqd]

/-! ## The package that has grown -/

/-- More files import more. -/
theorem mem_importsOf_of_subset {own : Option String} {files files' : List SourceFile}
    (hsubset : ∀ f ∈ files, f ∈ files') {path : String}
    (hpath : path ∈ PackageInfo.importsOf t roots own files) :
    path ∈ PackageInfo.importsOf t roots own files' := by
  rw [PackageInfo.mem_importsOf_iff] at hpath ⊢
  obtain ⟨⟨f, hf, hentry⟩, hown⟩ := hpath
  exact ⟨⟨f, hsubset f hf, hentry⟩, hown⟩

/-- A file that was there is read as before. -/
theorem readFile_of_kept (h : Grows d t u) {name : String} {bytes : ByteArray}
    (hat : t.at? (d ++ [name]) = some (.file bytes)) :
    PackageInfo.readFile u (FilePath.child (.ofPlace d) name) =
      PackageInfo.readFile t (FilePath.child (.ofPlace d) name) := by
  have hplace : t.find (.ofPlace d) = .ok (d, .directory) := t.find_ofPlace h.directory
  have hn : IsName name := t.isName_of_at? hat name (by simp)
  have hfind : u.find (FilePath.child (.ofPlace d) name) = t.find (FilePath.child (.ofPlace d) name) :=
    ((u.find_child (h.find_directory_iff.2 hplace) hn).2 (h.kept _ _ hat)).trans
      ((t.find_child hplace hn).2 hat).symm
  simp only [PackageInfo.readFile, readCharacters, readBytes, hfind]

/-- **The files of the directory that has grown**: those that were there, and others that can be read. -/
theorem exists_files (h : Grows d t u) (hd : t.HoldsSource d) {paths : List FilePath}
    {files : List SourceFile} (hpaths : t.sourceFiles (.ofPlace d) = .ok paths)
    (hfiles : paths.mapM (PackageInfo.readFile t) = .ok files) :
    ∃ paths' files', u.sourceFiles (.ofPlace d) = .ok paths' ∧ paths' ≠ [] ∧
      paths'.mapM (PackageInfo.readFile u) = .ok files' ∧ ∀ f ∈ files, f ∈ files' := by
  have hplace : t.find (.ofPlace d) = .ok (d, .directory) := t.find_ofPlace h.directory
  have hplace' : u.find (.ofPlace d) = .ok (d, .directory) := h.find_directory_iff.2 hplace
  obtain ⟨paths', hpaths'⟩ := sourceFiles_of_find hplace'
  have hreadable : ∀ file ∈ paths', ∃ f, PackageInfo.readFile u file = .ok f := by
    intro file hfile
    obtain ⟨name, rfl, ⟨bytes, hat'⟩, hsource⟩ := (mem_sourceFiles hplace' hpaths').1 hfile
    rcases h.added _ _ hat' with hat | ⟨added, text, hname, hbytes⟩
    · rw [h.readFile_of_kept hat]
      exact exists_of_mapM hfiles ((mem_sourceFiles hplace hpaths).2 ⟨name, rfl, ⟨bytes, hat⟩, hsource⟩)
    · have hn : IsName name := u.isName_of_at? hat' name (by simp)
      have hfind := (u.find_child hplace' hn).2 (hat'.trans (congrArg some hbytes))
      simp only [PackageInfo.readFile, u.readCharacters_of_find hfind]
      exact ⟨_, rfl⟩
  obtain ⟨files', hfiles'⟩ := exists_mapM_eq_ok hreadable
  refine ⟨paths', files', hpaths', ?_, hfiles', fun f hf => ?_⟩
  · obtain ⟨name, bytes, hat', hsource⟩ := h.holdsSource hd
    exact List.ne_nil_of_mem ((mem_sourceFiles hplace' hpaths').2 ⟨name, rfl, ⟨bytes, hat'⟩, hsource⟩)
  · obtain ⟨file, hfile, hreadFile⟩ := (mem_of_mapM hfiles).1 hf
    obtain ⟨name, rfl, ⟨bytes, hat⟩, hsource⟩ := (mem_sourceFiles hplace hpaths).1 hfile
    refine (mem_of_mapM hfiles').2 ⟨_, ?_, (h.readFile_of_kept hat).trans hreadFile⟩
    exact (mem_sourceFiles hplace' hpaths').2 ⟨name, rfl, ⟨bytes, h.kept _ _ hat⟩, hsource⟩

/-- **The package that has grown is still there**, with its files and its imports. -/
theorem exists_grown (h : Grows d t u) (hd : t.HoldsSource d) {path : String} {old : PackageInfo}
    (hold : roots.HasPackage t path old) (hdir : old.dir = .ofPlace d) :
    ∃ new, roots.HasPackage u path new ∧ new.dir = old.dir ∧
      (∀ f ∈ old.files, f ∈ new.files) ∧ ∀ q ∈ old.imports, q ∈ new.imports := by
  obtain ⟨dir, hfound, hread⟩ := hold
  obtain ⟨hdirectory, paths, files, hpaths, -, hfiles, rfl⟩ := PackageInfo.read_eq_ok_iff.1 hread
  have hnormal : t.normalized dir = .ofPlace d := hdir
  have hnormal' : u.normalized dir = .ofPlace d := (h.normalized_eq hdirectory).trans hnormal
  rw [hnormal] at hpaths
  obtain ⟨paths', files', hpaths', hne, hfiles', hsubset⟩ := h.exists_files hd hpaths hfiles
  have hread' : PackageInfo.read u roots dir =
      .ok (PackageInfo.ofFiles u roots (u.normalized dir) files') :=
    PackageInfo.read_eq_ok_iff.2 ⟨by rw [h.isDirectory_eq, hdirectory], paths', files',
      by rw [hnormal', hpaths'], hne, hfiles', rfl⟩
  refine ⟨_, ⟨dir, by rw [h.find?_eq hd, hfound], hread'⟩, hnormal'.trans hnormal.symm, hsubset,
    fun q hq => ?_⟩
  have hplace : t.isDirectory (.ofPlace d) = true := isDirectory_iff.2 ⟨d, t.find_ofPlace h.directory⟩
  have himports : q ∈ PackageInfo.importsOf t roots (roots.importPath? t (.ofPlace d)) files := by
    rw [← hnormal]
    exact hq
  show q ∈ PackageInfo.importsOf u roots (roots.importPath? u (u.normalized dir)) files'
  rw [hnormal', h.importPath?_eq hplace, h.importsOf_eq hd]
  exact mem_importsOf_of_subset hsubset himports

/-- **A package that stands there when it has grown has been there before.** -/
theorem exists_before (h : Grows d t u) (hd : t.HoldsSource d) {path : String} {new : PackageInfo}
    (hnew : roots.HasPackage u path new) : ∃ old, roots.HasPackage t path old := by
  by_cases hdir : new.dir = .ofPlace d
  · obtain ⟨dir, hfound, hread⟩ := hnew
    obtain ⟨hdirectory, paths', files', hpaths', -, hfiles', rfl⟩ := PackageInfo.read_eq_ok_iff.1 hread
    rw [h.find?_eq hd] at hfound
    rw [h.isDirectory_eq] at hdirectory
    have hnormal' : u.normalized dir = .ofPlace d := hdir
    have hnormal : t.normalized dir = .ofPlace d := (h.normalized_eq hdirectory).symm.trans hnormal'
    have hplace : t.find (.ofPlace d) = .ok (d, .directory) := t.find_ofPlace h.directory
    have hplace' : u.find (.ofPlace d) = .ok (d, .directory) := h.find_directory_iff.2 hplace
    rw [hnormal'] at hpaths'
    obtain ⟨paths, hpaths⟩ := sourceFiles_of_find hplace
    have hreadable : ∀ file ∈ paths, ∃ f, PackageInfo.readFile t file = .ok f := by
      intro file hfile
      obtain ⟨name, rfl, ⟨bytes, hat⟩, hsource⟩ := (mem_sourceFiles hplace hpaths).1 hfile
      rw [← h.readFile_of_kept hat]
      exact exists_of_mapM hfiles'
        ((mem_sourceFiles hplace' hpaths').2 ⟨name, rfl, ⟨bytes, h.kept _ _ hat⟩, hsource⟩)
    obtain ⟨files, hfiles⟩ := exists_mapM_eq_ok hreadable
    obtain ⟨name, bytes, hat, hsource⟩ := hd
    have hne : paths ≠ [] :=
      List.ne_nil_of_mem ((mem_sourceFiles hplace hpaths).2 ⟨name, rfl, ⟨bytes, hat⟩, hsource⟩)
    exact ⟨_, dir, hfound, PackageInfo.read_eq_ok_iff.2
      ⟨hdirectory, paths, files, hnormal.symm ▸ hpaths, hne, hfiles, rfl⟩⟩
  · exact ⟨new, (h.hasPackage_iff hd hdir).1 hnew⟩

end Grows

end FileTree

namespace PackageInfo

open FileTree

/-- **The package that is read in a directory** stands there, and is named from there. -/
theorem exists_place_of_read {t : FileTree} {roots : SourceRoots} {dir : FilePath} {info : PackageInfo}
    (h : read t roots dir = .ok info) : ∃ place,
    t.find dir = .ok (place, .directory) ∧ t.HoldsSource place ∧ info.dir = .ofPlace place ∧
      info.importPath = roots.importPath? t (.ofPlace place) := by
  obtain ⟨hdir, paths, files, hpaths, hne, -, rfl⟩ := read_eq_ok_iff.1 h
  obtain ⟨place, hplace⟩ := isDirectory_iff.1 hdir
  rw [normalized_of_find hplace] at hpaths ⊢
  obtain ⟨path, hpath⟩ := List.exists_mem_of_ne_nil _ hne
  obtain ⟨name, -, ⟨bytes, hat⟩, hname⟩ :=
    (mem_sourceFiles (t.find_ofPlace (t.find_eq_ok_iff.1 hplace).2) hpaths).1 hpath
  exact ⟨place, hplace, ⟨name, bytes, hat, hname⟩, rfl, rfl⟩

end PackageInfo

end ModelPool
