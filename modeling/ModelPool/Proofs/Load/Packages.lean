import ModelPool.Files.Texts
import ModelPool.Program.Load
import ModelPool.Proofs.Files.Paths
import ModelPool.Proofs.Results
import ModelPool.Proofs.Walk.Listed

/-!
# Proofs/Load/Packages — the packages of a program

The packages of a program are those that its walk lists, in that order, each with the models that its
files declare.  So what a program lists is a matter of the walk alone, and it does not depend on whether
the load is tolerant or strict.

* `load_eq_ok_iff` — when a load gives a program, and which.
* `mem_packages_iff` — the packages of a program are those found behind reachable paths.
-/

namespace ModelPool

open Text

/-! ## Names in directories -/

namespace FileTree

/-- The source files of a directory stand in the order of their names. -/
theorem exists_names_of_sourceFiles {t : FileTree} {dir : FilePath} {paths : List FilePath}
    (h : t.sourceFiles dir = .ok paths) :
    ∃ names : List String, names.Pairwise (· < ·) ∧ paths = names.map dir.child := by
  obtain ⟨listed, hlisted, hfilter⟩ : ∃ listed, t.list dir = .ok listed ∧
      listed.filter t.isSourceFile = paths := by
    unfold sourceFiles at h
    cases hl : t.list dir with
    | error e => simp [hl, Except.map] at h
    | ok listed => exact ⟨listed, rfl, by simpa [hl, Except.map] using h⟩
  obtain ⟨⟨place, e⟩, -, hentry⟩ := bind_eq_ok_iff.1 hlisted
  cases e with
  | file bytes =>
    obtain rfl := Except.ok.inj hentry
    exact ⟨[], List.Pairwise.nil, hfilter.symm⟩
  | directory =>
    obtain rfl := Except.ok.inj hentry
    refine ⟨(t.namesIn place).filter (t.isSourceFile ∘ dir.child),
      (t.pairwise_namesIn place).filter _, ?_⟩
    rw [← hfilter, List.filter_map]

end FileTree

/-! ## Packages in directories -/

namespace PackageInfo

variable {t : FileTree} {roots : SourceRoots}

/-- **What reading a package gives.**  Its directory is there, it holds source files, and each of these
can be read. -/
theorem read_eq_ok_iff {dir : FilePath} {info : PackageInfo} :
    read t roots dir = .ok info ↔ t.isDirectory dir = true ∧
      ∃ paths files, t.sourceFiles (t.normalized dir) = .ok paths ∧ paths ≠ [] ∧
        paths.mapM (readFile t) = .ok files ∧ ofFiles t roots (t.normalized dir) files = info := by
  unfold read
  split
  · next hdir =>
    unfold readCanonical sourceFilesOf
    cases hpaths : t.sourceFiles (t.normalized dir) with
    | error e => simp [bind, Except.bind]
    | ok paths =>
      cases hfiles : paths.mapM (readFile t) with
      | error e => cases paths <;> simp [bind, Except.bind, hfiles]
      | ok files => cases paths <;> simp [bind, Except.bind, pure, Except.pure, hfiles, hdir]
  · next hdir => simp [hdir]

/-- **The files of a package** are the source files of its directory in the order of their names. -/
theorem exists_names_of_read {dir : FilePath} {info : PackageInfo} (h : read t roots dir = .ok info) :
    ∃ names : List String, names.Pairwise (· < ·) ∧
      t.sourceFiles info.dir = .ok (names.map info.dir.child) ∧
      (names.map info.dir.child).mapM (readFile t) = .ok info.files := by
  obtain ⟨-, paths, files, hpaths, -, hfiles, rfl⟩ := read_eq_ok_iff.1 h
  obtain ⟨names, hsorted, rfl⟩ := FileTree.exists_names_of_sourceFiles hpaths
  exact ⟨names, hsorted, hpaths, hfiles⟩

/-- What a file declares is read from its characters. -/
theorem exists_ofCharacters_of_read {dir : FilePath} {info : PackageInfo} (h : read t roots dir = .ok info)
    {f : SourceFile} (hf : f ∈ info.files) : ∃ cs, f.unit = .ofCharacters cs := by
  obtain ⟨-, paths, files, -, -, hfiles, rfl⟩ := read_eq_ok_iff.1 h
  obtain ⟨path, -, hread⟩ := (mem_of_mapM hfiles).1 hf
  unfold readFile at hread
  split at hread
  · next cs _ =>
    obtain rfl := Except.ok.inj hread
    exact ⟨cs, rfl⟩
  · simp at hread

/-- The imports of a package are those of its files. -/
theorem imports_of_read {dir : FilePath} {info : PackageInfo} (h : read t roots dir = .ok info) :
    info.imports = importsOf t roots info.importPath info.files := by
  obtain ⟨-, paths, files, -, -, -, rfl⟩ := read_eq_ok_iff.1 h
  rfl

/-- **The imports of files** are what their entries stand for, but for the package they belong to. -/
theorem mem_importsOf_iff {own : Option String} {files : List SourceFile} {path : String} :
    path ∈ importsOf t roots own files ↔
      (∃ f ∈ files, ∃ u ∈ f.unit.uses, dependency? t roots u = some path) ∧ own ≠ some path := by
  simp only [importsOf, List.mem_eraseDups, List.mem_filter, List.mem_filterMap, List.mem_flatMap,
    decide_eq_true_eq]
  refine and_congr_left fun _ => ?_
  constructor
  · rintro ⟨u, ⟨f, hf, hu⟩, hpath⟩
    exact ⟨f, hf, u, hu, hpath⟩
  · rintro ⟨f, hf, u, hu, hpath⟩
    exact ⟨u, ⟨f, hf, hu⟩, hpath⟩

end PackageInfo

/-! ## Packages behind paths -/

namespace SourceRoots

variable {t : FileTree} {roots : SourceRoots}

/-- **A package is found behind an import path and can be read.** -/
def HasPackage (t : FileTree) (roots : SourceRoots) (path : String) (info : PackageInfo) : Prop :=
  ∃ dir, roots.find? t path = some dir ∧ PackageInfo.read t roots dir = .ok info

/-- **The package behind one import path imports the other.** -/
def Imports (t : FileTree) (roots : SourceRoots) (p q : String) : Prop :=
  ∃ info, roots.HasPackage t p info ∧ q ∈ info.imports

theorem lookup_ofTree_iff {path : String} {info : PackageInfo} :
    (ImportGraph.ofTree t roots).lookup path = .package info ↔ roots.HasPackage t path info := by
  simp only [ImportGraph.ofTree, found, HasPackage]
  cases hdir : roots.find? t path with
  | none => simp
  | some dir => cases hread : PackageInfo.read t roots dir <;> simp [hread]

theorem lookup_ofTree_eq_missing_iff {path : String} :
    (ImportGraph.ofTree t roots).lookup path = .missing ↔ roots.find? t path = none := by
  simp only [ImportGraph.ofTree, found]
  cases hdir : roots.find? t path with
  | none => simp
  | some dir => cases hread : PackageInfo.read t roots dir <;> simp [hread]

/-- There is one package behind a path at most. -/
theorem HasPackage.unique {path : String} {info other : PackageInfo}
    (h : roots.HasPackage t path info) (h' : roots.HasPackage t path other) : info = other := by
  rw [← lookup_ofTree_iff] at h h'
  simpa [h] using h'

/-- The package of a target is the longest prefix of the entry that names one. -/
theorem exists_packagePrefix?_of_package? {u : UseEntry} {path : String}
    (h : (roots.classify t u).package? = some path) :
    ∃ segments, roots.packagePrefix? t u.path = some segments ∧ path = pathText segments := by
  unfold classify at h
  split at h
  · simp [UseTarget.package?] at h
  · split at h
    · simp [UseTarget.package?] at h
    · split at h
      · simp [UseTarget.package?] at h
      · split at h
        · simp [UseTarget.package?] at h
        · next segments hbelow =>
          refine ⟨segments, hbelow, ?_⟩
          split at h <;> simp only [UseTarget.package?, Option.some.injEq, reduceCtorEq] at h <;>
            exact h.symm

/-- A path that names a package is the longest such prefix of itself. -/
theorem packagePrefix?_self {path : List String} (hne : path ≠ [])
    (h : (roots.find? t (pathText path)).isSome = true) : roots.packagePrefix? t path = some path := by
  cases path with
  | nil => exact absurd rfl hne
  | cons first rest =>
    unfold packagePrefix? prefixes
    rw [List.length_cons, List.range_succ_eq_map, List.map_cons, List.find?_cons_of_pos]
    · simp
    · simpa using h

/-- And one that names none has the longest prefix of what stands before its last segment. -/
theorem packagePrefix?_concat {path : List String} {name : String}
    (h : roots.find? t (pathText (path ++ [name])) = none) :
    roots.packagePrefix? t (path ++ [name]) = roots.packagePrefix? t path := by
  have hwhole : (path ++ [name]).take (path.length + 1 - 0) = path ++ [name] :=
    List.take_of_length_le (by simp)
  unfold packagePrefix? prefixes
  rw [List.length_append, List.length_singleton, List.range_succ_eq_map, List.map_cons, hwhole,
    List.find?_cons_of_neg (by simp [h]), List.map_map]
  refine congrArg (List.find? _) (List.map_congr_left fun k _ => ?_)
  have hlength : path.length + 1 - (k + 1) = path.length - k := Nat.add_sub_add_right _ _ _
  rw [Function.comp_apply, Nat.succ_eq_add_one, hlength,
    List.take_append_of_le_length (Nat.sub_le _ _)]

theorem imports_ofTree : (ImportGraph.ofTree t roots).Imports = roots.Imports t := by
  funext p q
  simp only [ImportGraph.Imports, Imports, lookup_ofTree_iff]

end SourceRoots

namespace Program

/-! ## What a load gives -/

/-- The walk of a load. -/
def walkOf (t : FileTree) (roots : SourceRoots) (imports : ImportSet) : Walk :=
  (ImportGraph.ofTree t roots).walk (imports.paths.map trimmed)

/-- The surroundings of the files of a load. -/
def surroundingsOf (t : FileTree) (roots : SourceRoots) (imports : ImportSet) : Surroundings :=
  surroundings t roots (walkOf t roots imports).loaded

/-- A listed package with its models. -/
def checked (s : Surroundings) (x : String × PackageInfo) : Package :=
  ⟨x.2.name, x.1, x.2.dir, x.2.files, x.2.imports, (SourceFile.checkAll s x.1 x.2.files).value⟩

theorem value_checkPackages (s : Surroundings) (loaded : List (String × PackageInfo)) :
    (checkPackages s loaded).value = loaded.map (checked s) := by
  induction loaded with
  | nil => rfl
  | cons x r ih => simp [checkPackages, checked, ih]

theorem packages_ofWalk (t : FileTree) (roots : SourceRoots) (imports : ImportSet) (mode : LoadMode)
    (w : Walk) : (ofWalk t roots imports mode w).packages =
      w.loaded.map (checked (surroundings t roots w.loaded)) :=
  value_checkPackages _ _

/-- **When a load gives a program, and which.** -/
theorem load_eq_ok_iff {t : FileTree} {roots : SourceRoots} {imports : ImportSet} {mode : LoadMode}
    {p : Program} : load t roots imports mode = .ok p ↔
      imports.paths ≠ [] ∧ ofWalk t roots imports mode (walkOf t roots imports) = p ∧
        (mode = .strict → p.diagnostics = []) := by
  have hempty : imports.isEmpty = true ↔ imports.paths = [] := by simp [ImportSet.isEmpty]
  have hload : load t roots imports mode =
      if imports.isEmpty then .error .noPackages
      else if mode = .strict ∧ (ofWalk t roots imports mode (walkOf t roots imports)).hasErrors then
        .error (.strict (ofWalk t roots imports mode (walkOf t roots imports)).diagnostics)
      else .ok (ofWalk t roots imports mode (walkOf t roots imports)) := rfl
  rw [hload]
  generalize ofWalk t roots imports mode (walkOf t roots imports) = q
  split
  · next he => simp [hempty.1 he]
  · next he =>
    have hne : imports.paths ≠ [] := fun h => he (hempty.2 h)
    have herrors : q.hasErrors = true ↔ q.diagnostics ≠ [] := by simp [hasErrors]
    split
    · next hd =>
      constructor
      · exact fun h => absurd h (by simp)
      · rintro ⟨-, rfl, hnil⟩
        exact absurd (hnil hd.1) (herrors.1 hd.2)
    · next hd =>
      constructor
      · rintro ⟨⟩
        exact ⟨hne, rfl, fun hm => by_contra fun hq => hd ⟨hm, herrors.2 hq⟩⟩
      · rintro ⟨-, rfl, -⟩
        rfl

section Loaded

variable {t : FileTree} {roots : SourceRoots} {imports : ImportSet} {mode : LoadMode} {p : Program}

/-- The packages are those that the walk lists. -/
theorem packages_of_load (h : load t roots imports mode = .ok p) :
    p.packages = (walkOf t roots imports).loaded.map (checked (surroundingsOf t roots imports)) := by
  obtain ⟨-, rfl, -⟩ := load_eq_ok_iff.1 h
  exact packages_ofWalk _ _ _ _ _

/-- What is listed is a package, once it is checked. -/
theorem mem_packages_of_loaded (h : load t roots imports mode = .ok p) {x : String × PackageInfo}
    (hx : x ∈ (walkOf t roots imports).loaded) :
    checked (surroundingsOf t roots imports) x ∈ p.packages :=
  packages_of_load h ▸ List.mem_map_of_mem hx

/-- And their paths are the paths listed. -/
theorem importPaths_of_load (h : load t roots imports mode = .ok p) :
    p.packages.map Package.importPath = (walkOf t roots imports).loaded.map Prod.fst := by
  rw [packages_of_load h, List.map_map]
  rfl

theorem nodup_importPaths (h : load t roots imports mode = .ok p) :
    (p.packages.map Package.importPath).Nodup := by
  rw [importPaths_of_load h]
  exact ImportGraph.nodup_loaded_walk _ _

/-- **The packages that a walk lists are found behind reachable paths.** -/
theorem mem_loaded_iff {path : String} {info : PackageInfo} :
    (path, info) ∈ (walkOf t roots imports).loaded ↔ roots.HasPackage t path info ∧
      ∃ entry ∈ imports.paths, Relation.ReflTransGen (roots.Imports t) (trimmed entry) path := by
  rw [walkOf, ImportGraph.mem_loaded_walk, SourceRoots.lookup_ofTree_iff, ImportGraph.Reachable,
    SourceRoots.imports_ofTree]
  simp only [List.mem_map, exists_exists_and_eq_and]

/-- What is looked up by its path is what is listed. -/
theorem lookup_loaded_iff {path : String} {info : PackageInfo} :
    (walkOf t roots imports).loaded.lookup path = some info ↔
      (path, info) ∈ (walkOf t roots imports).loaded := by
  have hnodup : ((walkOf t roots imports).loaded.map Prod.fst).Nodup :=
    ImportGraph.nodup_loaded_walk _ _
  rw [List.lookup_eq_some_iff]
  constructor
  · rintro ⟨before, after, heq, -⟩
    rw [heq]
    exact List.mem_append_right _ List.mem_cons_self
  · intro hmem
    obtain ⟨before, after, heq⟩ := List.append_of_mem hmem
    refine ⟨before, after, heq, fun x hx => ?_⟩
    rw [heq, List.map_append, List.map_cons, List.nodup_append] at hnodup
    have hne := hnodup.2.2 x.1 (List.mem_map_of_mem hx) path List.mem_cons_self
    simpa using hne.symm

/-- **And so are the packages of a program.** -/
theorem mem_packages_iff (h : load t roots imports mode = .ok p) {a : Package} :
    a ∈ p.packages ↔ ∃ info, a = checked (surroundingsOf t roots imports) (a.importPath, info) ∧
      roots.HasPackage t a.importPath info ∧
      ∃ entry ∈ imports.paths,
        Relation.ReflTransGen (roots.Imports t) (trimmed entry) a.importPath := by
  rw [packages_of_load h, List.mem_map]
  constructor
  · rintro ⟨⟨path, info⟩, hx, rfl⟩
    exact ⟨info, rfl, mem_loaded_iff.1 hx⟩
  · rintro ⟨info, ha, hinfo⟩
    exact ⟨(a.importPath, info), mem_loaded_iff.2 hinfo, ha.symm⟩

/-- Packages with one path are one. -/
theorem eq_of_importPath_eq (h : load t roots imports mode = .ok p) {a b : Package}
    (ha : a ∈ p.packages) (hb : b ∈ p.packages) (hab : a.importPath = b.importPath) : a = b :=
  List.inj_on_of_nodup_map (nodup_importPaths h) ha hb hab

end Loaded

/-! ## A small cycle -/

/-- Two packages in files of their own that import each other. -/
def mutualTree : FileTree :=
  .ofTexts [(["a", "x.rs"], "use b::B;\npub struct A;"), (["b", "x.rs"], "use a::A;\npub struct B;")]

/-- The roots of a framework at the root of the tree. -/
def rootOnly : SourceRoots := ⟨⟨"/"⟩, []⟩

end Program

end ModelPool
