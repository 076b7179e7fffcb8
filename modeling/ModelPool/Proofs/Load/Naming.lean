import ModelPool.Proofs.Load.Missing
import ModelPool.Proofs.Pool.Collecting

/-!
# Proofs/Load/Naming — the names that a package is given

    x.rs   #![package(m)]               keeps m
    y.rs   #![package(n)]               keeps n     told: found packages m and n
    z.rs   #![package(m)] #![package]   keeps nothing

A file keeps the name that its last attribute for the package carries, and the package is told of if two of
its files keep different names: by an error where it is imported by itself, by a diagnostic of the walk where
it is loaded.  What an earlier attribute of a file carries is not seen again.

* `Program.mem_diagnostics_walk_iff` — what a walk has told.
* `read_tells_names` — what is told of the names of a package.
* `not_forall_names_told` — two names in one file.
-/

namespace ModelPool

open Text Source

/-! ## Names that attributes carry -/

/-- **The name that an attribute carries for the package**, if it is meant for that: its arguments, unless they
are blank. -/
def Attribute.packageName? (a : Attribute) : Option String :=
  if a.name == packageAttribute then (a.args.map trimmed).filter (!·.isEmpty) else none

namespace SourceUnit

/-- **The names that the attributes of a file carry** for its package. -/
def packageNames (u : SourceUnit) : List String := u.innerAttributes.filterMap Attribute.packageName?

/-- **A file keeps every name that its attributes carry**, so they all carry what the last one does. -/
def KeepsNames (u : SourceUnit) : Prop := ∀ name ∈ u.packageNames, u.package = some name

/-- A file keeps what its last attribute for the package carries. -/
theorem package_ofCharacters (cs : List Char) : (ofCharacters cs).package =
    (((ofCharacters cs).innerAttributes.filter (·.name == packageAttribute)).getLast?).bind
      Attribute.packageName? := by
  have hpackage : (ofCharacters cs).package = declaredPackage? (ofCharacters cs).innerAttributes := rfl
  rw [hpackage, declaredPackage?]
  cases hlast : ((ofCharacters cs).innerAttributes.filter (·.name == packageAttribute)).getLast? with
  | none => rfl
  | some a =>
    have hname : (a.name == packageAttribute) = true := (List.mem_filter.1 (List.mem_of_getLast? hlast)).2
    simp only [Option.bind_eq_bind, Option.bind_some, Attribute.packageName?, hname, if_true]
    cases a.args with
    | none => rfl
    | some args => by_cases hempty : trimmed args = "" <;> simp [Option.filter, hempty]

/-- What a file keeps is among the names carried. -/
theorem mem_packageNames_of_package {cs : List Char} {name : String}
    (h : (ofCharacters cs).package = some name) : name ∈ (ofCharacters cs).packageNames := by
  rw [package_ofCharacters] at h
  obtain ⟨a, ha, hname⟩ := Option.bind_eq_some_iff.1 h
  exact List.mem_filterMap.2 ⟨a, (List.mem_filter.1 (List.mem_of_getLast? ha)).1, hname⟩

/-- **Attributes that all carry one name** make the file keep it. -/
theorem package_eq_some {cs : List Char} {name : String} {a : Attribute}
    (hall : ∀ b ∈ (ofCharacters cs).innerAttributes, b.name = packageAttribute → b.packageName? = some name)
    (ha : a ∈ (ofCharacters cs).innerAttributes) (hname : a.name = packageAttribute) :
    (ofCharacters cs).package = some name := by
  have hmem : a ∈ (ofCharacters cs).innerAttributes.filter (·.name == packageAttribute) :=
    List.mem_filter.2 ⟨ha, beq_iff_eq.2 hname⟩
  rw [package_ofCharacters]
  cases hlast : ((ofCharacters cs).innerAttributes.filter (·.name == packageAttribute)).getLast? with
  | none => exact absurd hmem (by simp [List.getLast?_eq_none_iff.1 hlast])
  | some b =>
    obtain ⟨hb, hbname⟩ := List.mem_filter.1 (List.mem_of_getLast? hlast)
    exact hall b hb (beq_iff_eq.1 hbname)

end SourceUnit

namespace PackageInfo

variable {t : FileTree} {roots : SourceRoots} {dir : FilePath} {info : PackageInfo} {name : String}

/-- The names that the attributes of a package carry. -/
def packageNames (info : PackageInfo) : List String := info.files.flatMap fun f => f.unit.packageNames

/-- **Every attribute for the package carries one name**, and there is such an attribute. -/
structure CarriesOnly (info : PackageInfo) (name : String) : Prop where
  named : ∃ f ∈ info.files, ∃ a ∈ f.unit.innerAttributes, a.name = packageAttribute
  only : ∀ f ∈ info.files, ∀ a ∈ f.unit.innerAttributes, a.name = packageAttribute →
    a.packageName? = some name

/-- The names of a package are those that its files keep. -/
theorem mem_declaredNames_iff (h : read t roots dir = .ok info) :
    name ∈ info.declaredNames ↔ ∃ f ∈ info.files, f.unit.package = some name := by
  obtain ⟨-, paths, files, -, -, -, rfl⟩ := read_eq_ok_iff.1 h
  simp [ofFiles]

theorem nodup_declaredNames (h : read t roots dir = .ok info) : info.declaredNames.Nodup := by
  obtain ⟨-, paths, files, -, -, -, rfl⟩ := read_eq_ok_iff.1 h
  exact nodup_eraseDups _

/-- The first of them is the package's. -/
theorem name_of_declaredNames (h : read t roots dir = .ok info) {others : List String}
    (hnames : info.declaredNames = name :: others) : info.name = name := by
  obtain ⟨-, paths, files, -, -, -, rfl⟩ := read_eq_ok_iff.1 h
  change nameFor _ _ = name
  change List.eraseDups _ = name :: others at hnames
  rw [hnames]
  rfl

/-- Each of them is carried by an attribute. -/
theorem mem_packageNames (h : read t roots dir = .ok info) (hname : name ∈ info.declaredNames) :
    name ∈ info.packageNames := by
  obtain ⟨f, hf, hpackage⟩ := (mem_declaredNames_iff h).1 hname
  obtain ⟨cs, hcs⟩ := exists_ofCharacters_of_read h hf
  rw [hcs] at hpackage
  refine List.mem_flatMap.2 ⟨f, hf, ?_⟩
  rw [hcs]
  exact SourceUnit.mem_packageNames_of_package hpackage

/-- **Different names that are kept** are the first two of the package. -/
theorem exists_declaredNames (h : read t roots dir = .ok info)
    (hkept : ∀ f ∈ info.files, f.unit.KeepsNames) {other : String} (hname : name ∈ info.packageNames)
    (hother : other ∈ info.packageNames) (hne : name ≠ other) :
    ∃ first second others, info.declaredNames = first :: second :: others ∧ first ≠ second := by
  have hdeclared : ∀ {name}, name ∈ info.packageNames → name ∈ info.declaredNames := fun hname => by
    obtain ⟨f, hf, hcarried⟩ := List.mem_flatMap.1 hname
    exact (mem_declaredNames_iff h).2 ⟨f, hf, hkept f hf _ hcarried⟩
  have hfirst := hdeclared hname
  have hsecond := hdeclared hother
  have hnodup := nodup_declaredNames h
  generalize info.declaredNames = names at hfirst hsecond hnodup
  cases names with
  | nil => exact absurd hfirst List.not_mem_nil
  | cons first others =>
    cases others with
    | nil =>
      exact absurd ((List.mem_singleton.1 hfirst).trans (List.mem_singleton.1 hsecond).symm) hne
    | cons second others => exact ⟨first, second, others, rfl, fun heq => by simp [heq] at hnodup⟩

/-- **One name that all attributes carry** is the only one of the package. -/
theorem declaredNames_of_carriesOnly (h : read t roots dir = .ok info) (hcarries : info.CarriesOnly name) :
    info.declaredNames = [name] := by
  have hkept : ∀ f ∈ info.files, ∀ a ∈ f.unit.innerAttributes, a.name = packageAttribute →
      f.unit.package = some name := by
    intro f hf a ha hname
    have hall := hcarries.only f hf
    obtain ⟨cs, hcs⟩ := exists_ofCharacters_of_read h hf
    rw [hcs] at ha hall ⊢
    exact SourceUnit.package_eq_some hall ha hname
  have hmem : name ∈ info.declaredNames := by
    obtain ⟨f, hf, a, ha, hname⟩ := hcarries.named
    exact (mem_declaredNames_iff h).2 ⟨f, hf, hkept f hf a ha hname⟩
  have honly : ∀ other ∈ info.declaredNames, other = name := by
    intro other hother
    obtain ⟨f, hf, hcarried⟩ := List.mem_flatMap.1 (mem_packageNames h hother)
    obtain ⟨a, ha, hname⟩ := List.mem_filterMap.1 hcarried
    have hmeant : a.name = packageAttribute := by
      by_contra hnot
      simp [Attribute.packageName?, hnot] at hname
    exact Option.some.inj (hname.symm.trans (hcarries.only f hf a ha hmeant))
  have hall := List.eq_replicate_of_mem honly
  have hnodup := nodup_declaredNames h
  rw [hall, List.nodup_replicate] at hnodup
  rw [hall, Nat.le_antisymm hnodup (List.length_pos_of_mem hmem), List.replicate_one]

/-! ## What is told of them -/

/-- A package in well-formed files is refused only because of its names. -/
theorem fault?_of_wellFormed (hfiles : ∀ f ∈ info.files, f.unit.syntaxErrors = []) :
    info.fault? = match info.declaredNames with
      | first :: second :: _ => some (.conflictingNames info.dir first second)
      | _ => none := by
  have hnone : (info.files.findSome? fun f => f.unit.syntaxErrors.head?.map (PackageError.syntaxError f.path)) =
      none := List.findSome?_eq_none_iff.2 fun f hf => by rw [hfiles f hf]; rfl
  rw [fault?, hnone]
  rfl

/-- A directory of a package whose files can be read is read. -/
theorem exists_read (hdir : t.isPackageDirectory dir = true) {paths : List FilePath}
    (hpaths : t.sourceFiles (t.normalized dir) = .ok paths)
    (hfiles : ∀ path ∈ paths, ∃ f, readFile t path = .ok f ∧ f.unit.syntaxErrors = []) :
    ∃ info, read t roots dir = .ok info ∧ ∀ f ∈ info.files, f.unit.syntaxErrors = [] := by
  obtain ⟨place, hfind, hsource⟩ := FileTree.isPackageDirectory_iff.1 hdir
  have hfind' : t.find (t.normalized dir) = .ok (place, .directory) := by
    rw [FileTree.normalized_of_find hfind]
    exact t.find_ofPlace (t.find_eq_ok_iff.1 hfind).2
  have hne : paths ≠ [] := by
    rintro rfl
    obtain ⟨name, bytes, hat, hname⟩ := hsource
    have hmem := (FileTree.mem_sourceFiles hfind' hpaths).2 ⟨name, rfl, ⟨bytes, hat⟩, hname⟩
    exact absurd hmem List.not_mem_nil
  obtain ⟨files, hread⟩ := exists_mapM_eq_ok fun path hpath =>
    (hfiles path hpath).imp fun f hf => hf.1
  refine ⟨_, read_eq_ok_iff.2 ⟨FileTree.isDirectory_iff.2 ⟨place, hfind⟩, paths, files, hpaths, hne, hread,
    rfl⟩, fun f hf => ?_⟩
  obtain ⟨path, hpath, hreadFile⟩ := (mem_of_mapM hread).1 hf
  obtain ⟨f', hf', hwell⟩ := hfiles path hpath
  obtain rfl := Except.ok.inj (hreadFile.symm.trans hf')
  exact hwell

end PackageInfo

/-! ## Walks -/

namespace ImportGraph

variable {g : ImportGraph} {starts : List String}

/-- What is told of a path is told of the package behind it. -/
theorem package_of_diagnostics {path : String} {initial : Bool} {found : Found} :
    ∀ d ∈ found.diagnostics path initial, d.package = path := by
  intro d hd
  cases found with
  | missing =>
    cases initial with
    | true => rw [List.mem_singleton.1 hd]; rfl
    | false => exact absurd hd List.not_mem_nil
  | unreadable e => cases e <;> (rw [List.mem_singleton.1 hd]; rfl)
  | package info =>
    rcases List.mem_append.1 hd with hd | hd
    · obtain ⟨f, -, hd⟩ := List.mem_flatMap.1 hd
      obtain ⟨e, -, rfl⟩ := List.mem_map.1 hd
      rfl
    · split at hd
      · exact absurd hd List.not_mem_nil
      · obtain ⟨other, -, rfl⟩ := List.mem_map.1 hd
        rfl

/-- What is told of the names of a package. -/
theorem mem_diagnostics_names_iff {path : String} {initial : Bool} {info : PackageInfo} {d : Diagnostic}
    (hkind : d.kind = .packageName) : d ∈ (Found.package info).diagnostics path initial ↔
      ∃ first others, info.declaredNames = first :: others ∧ ∃ other ∈ others,
        d = (Problem.conflictingNames info.dir first other).inPackage path := by
  rw [Found.diagnostics, List.mem_append]
  constructor
  · rintro (hmalformed | hnames)
    · obtain ⟨f, -, herror⟩ := List.mem_flatMap.1 hmalformed
      obtain ⟨e, -, rfl⟩ := List.mem_map.1 herror
      exact absurd hkind (by simp [Problem.inFile, Problem.kind])
    · split at hnames
      · exact absurd hnames List.not_mem_nil
      · next first others hdeclared =>
        obtain ⟨other, hother, rfl⟩ := List.mem_map.1 hnames
        exact ⟨first, others, hdeclared, other, hother, rfl⟩
  · rintro ⟨first, others, hdeclared, other, hother, rfl⟩
    rw [hdeclared]
    exact .inr (List.mem_map_of_mem hother)

end ImportGraph

/-! ## Loads -/

namespace Program

variable {t : FileTree} {roots : SourceRoots} {imports : ImportSet} {dir : FilePath} {info : PackageInfo}
  {path : String} {p : Program} {mode : LoadMode}

/-- **A load meets the package of a directory under a path**: the path is found there, and an entry leads to
it. -/
structure Meets (t : FileTree) (roots : SourceRoots) (imports : ImportSet) (dir : FilePath) (path : String) :
    Prop where
  found : ∃ there, roots.find? t path = some there ∧ t.normalized there = t.normalized dir
  reached : ∃ entry ∈ imports.paths, Relation.ReflTransGen (roots.Imports t) (trimmed entry) path

theorem Meets.hasPackage (h : Meets t roots imports dir path)
    (hread : PackageInfo.read t roots dir = .ok info) : roots.HasPackage t path info := by
  obtain ⟨there, hfind, hnormalized⟩ := h.found
  have hthere : t.isDirectory there = true :=
    (Bool.and_eq_true_iff.1 (SourceRoots.isPackageDirectory_of_find? hfind)).1
  obtain ⟨-, hrest⟩ := PackageInfo.read_eq_ok_iff.1 hread
  rw [← hnormalized] at hrest
  exact ⟨there, hfind, PackageInfo.read_eq_ok_iff.2 ⟨hthere, hrest⟩⟩

theorem Meets.exists_load (h : Meets t roots imports dir path) :
    ∃ p, load t roots imports .tolerant = .ok p := by
  obtain ⟨entry, hentry, -⟩ := h.reached
  exact ⟨_, load_eq_ok_iff.2 ⟨List.ne_nil_of_mem hentry, rfl, fun hmode => absurd hmode (by decide)⟩⟩

theorem Meets.mem_visited (h : Meets t roots imports dir path) : path ∈ (walkOf t roots imports).visited := by
  obtain ⟨entry, hentry, hleads⟩ := h.reached
  refine ImportGraph.mem_visited_of_reachable ⟨_, List.mem_map_of_mem hentry, ?_⟩
  rw [SourceRoots.imports_ofTree]
  exact hleads

/-- What is told of names is told by the walk. -/
theorem mem_diagnostics_walk_iff (h : load t roots imports mode = .ok p) {d : Diagnostic}
    (hkind : d.kind = .packageName) : d ∈ p.diagnostics ↔ d ∈ (walkOf t roots imports).diagnostics := by
  have hfilter := filter_diagnostics_of_isOfWalk h (q := fun x => decide (x = d)) fun x hx => by
    obtain rfl := of_decide_eq_true hx
    exact .inr (.inr (.inr hkind))
  have hmem := congrArg (d ∈ ·) hfilter
  simpa [List.mem_filter] using hmem

/-- **What a load tells of the names of a package that it meets.** -/
theorem mem_diagnostics_packageName_iff (h : load t roots imports mode = .ok p)
    (hmeets : Meets t roots imports dir path) (hread : PackageInfo.read t roots dir = .ok info)
    {d : Diagnostic} (hkind : d.kind = .packageName) (hpath : d.package = path) :
    d ∈ p.diagnostics ↔ ∃ first others, info.declaredNames = first :: others ∧ ∃ other ∈ others,
      d = (Problem.conflictingNames info.dir first other).inPackage path := by
  have hlookup := SourceRoots.lookup_ofTree_iff.2 (hmeets.hasPackage hread)
  have htells := ImportGraph.tells_walk (ImportGraph.ofTree t roots) (imports.paths.map trimmed)
  rw [mem_diagnostics_walk_iff h hkind]
  constructor
  · intro hd
    obtain ⟨q, -, initial, htold⟩ := htells.only d hd
    obtain rfl := hpath.symm.trans (ImportGraph.package_of_diagnostics d htold)
    rw [hlookup] at htold
    exact (ImportGraph.mem_diagnostics_names_iff hkind).1 htold
  · intro hnames
    obtain ⟨initial, htold⟩ := htells.told path hmeets.mem_visited
    rw [hlookup] at htold
    exact htold d ((ImportGraph.mem_diagnostics_names_iff hkind).2 hnames)

end Program

namespace PackageInfo

variable {t : FileTree} {roots : SourceRoots} {dir : FilePath} {info : PackageInfo}

/-- **Two names for a package are told**: importing it gives an error with both, and a tolerant load of it has a
diagnostic with both. -/
structure TellsConflict (t : FileTree) (roots : SourceRoots) (dir : FilePath) (info : PackageInfo)
    (first second : String) : Prop where
  imported : importDirectory t roots dir = .error (.conflictingNames info.dir first second)
  loaded : ∀ imports path, Program.Meets t roots imports dir path →
    ∃ p, Program.load t roots imports .tolerant = .ok p ∧
      (Problem.conflictingNames info.dir first second).inPackage path ∈ p.diagnostics

/-- **No names for a package are told**: it is imported, and no diagnostic of a tolerant load of it is about its
name. -/
structure TellsNoConflict (t : FileTree) (roots : SourceRoots) (dir : FilePath) (info : PackageInfo) : Prop where
  imported : importDirectory t roots dir = .ok info
  loaded : ∀ imports path, Program.Meets t roots imports dir path →
    ∃ p, Program.load t roots imports .tolerant = .ok p ∧
      ∀ d ∈ p.diagnostics, d.kind = .packageName → d.package ≠ path

/-- Several names of a package are told. -/
theorem tellsConflict_of_declaredNames (h : read t roots dir = .ok info)
    (hwell : ∀ f ∈ info.files, f.unit.syntaxErrors = []) {first second : String} {others : List String}
    (hnames : info.declaredNames = first :: second :: others) : TellsConflict t roots dir info first second where
  imported := by
    rw [importDirectory, h]
    simp only [bind, Except.bind, fault?_of_wellFormed hwell, hnames]
  loaded := by
    intro imports path hmeets
    obtain ⟨p, hp⟩ := hmeets.exists_load
    exact ⟨p, hp, (Program.mem_diagnostics_packageName_iff hp hmeets h rfl rfl).2
      ⟨first, second :: others, hnames, second, List.mem_cons_self, rfl⟩⟩

/-- And one name is not. -/
theorem tellsNoConflict_of_declaredNames (h : read t roots dir = .ok info)
    (hwell : ∀ f ∈ info.files, f.unit.syntaxErrors = []) {name : String}
    (hnames : info.declaredNames = [name]) : TellsNoConflict t roots dir info where
  imported := by
    rw [importDirectory, h]
    simp only [bind, Except.bind, fault?_of_wellFormed hwell, hnames]
  loaded := by
    intro imports path hmeets
    obtain ⟨p, hp⟩ := hmeets.exists_load
    refine ⟨p, hp, fun d hd hkind hpath => ?_⟩
    obtain ⟨first, others, hsplit, other, hother, -⟩ :=
      (Program.mem_diagnostics_packageName_iff hp hmeets h hkind hpath).1 hd
    obtain ⟨-, rfl⟩ := List.cons.inj (hnames.symm.trans hsplit)
    exact absurd hother List.not_mem_nil

/-- **What is told of the names of a package.**  A directory of a package whose files can be read and are well
formed is read.  If each file keeps the names that its attributes carry, different names are told, two of them,
both where the package is imported and where it is loaded.  If every attribute for the package carries one name,
that name is the package's, and nothing is told of names. -/
theorem read_tells_names {paths : List FilePath} (hdir : t.isPackageDirectory dir = true)
    (hpaths : t.sourceFiles (t.normalized dir) = .ok paths)
    (hfiles : ∀ path ∈ paths, ∃ f, readFile t path = .ok f ∧ f.unit.syntaxErrors = []) :
    ∃ info, read t roots dir = .ok info ∧
      ((∀ f ∈ info.files, f.unit.KeepsNames) →
        (∃ name ∈ info.packageNames, ∃ other ∈ info.packageNames, name ≠ other) →
          ∃ first ∈ info.packageNames, ∃ second ∈ info.packageNames, first ≠ second ∧
            TellsConflict t roots dir info first second) ∧
      ∀ name, info.CarriesOnly name → info.name = name ∧ TellsNoConflict t roots dir info := by
  obtain ⟨info, h, hwell⟩ := exists_read hdir hpaths hfiles
  refine ⟨info, h, ?_, fun name hcarries => ?_⟩
  · rintro hkept ⟨name, hname, other, hother, hne⟩
    obtain ⟨first, second, others, hnames, hdistinct⟩ := exists_declaredNames h hkept hname hother hne
    have hfirst : first ∈ info.declaredNames := hnames ▸ List.mem_cons_self
    have hsecond : second ∈ info.declaredNames := hnames ▸ List.mem_cons_of_mem _ List.mem_cons_self
    exact ⟨first, mem_packageNames h hfirst, second, mem_packageNames h hsecond, hdistinct,
      tellsConflict_of_declaredNames h hwell hnames⟩
  · have hnames := declaredNames_of_carriesOnly h hcarries
    exact ⟨name_of_declaredNames h hnames, tellsNoConflict_of_declaredNames h hwell hnames⟩

/-- A package with a name in each of two files, and one with two names in one file. -/
def namingTree : FileTree := .ofTexts
  [(["a", "x.rs"], "#![package(m)]"), (["a", "y.rs"], "#![package(n)]"),
    (["b", "x.rs"], "#![package(m)]\n#![package(n)]")]

/-- What is read of the names of a package: those that it is given, and for each file those that it carries and
the one that it keeps, and how many errors it has. -/
def naming (info : PackageInfo) : List String × List (List String × Option String × Nat) :=
  (info.declaredNames, info.files.map fun f =>
    (f.unit.packageNames, f.unit.package, f.unit.syntaxErrors.length))

/-- The names of two files are told. -/
theorem read_tells_names_apart : ∃ info first second,
    read namingTree Program.rootOnly ⟨"/a"⟩ = .ok info ∧ first ≠ second ∧
      TellsConflict namingTree Program.rootOnly ⟨"/a"⟩ info first second := by
  have hpaths : namingTree.sourceFiles (namingTree.normalized ⟨"/a"⟩) = .ok [⟨"/a/x.rs"⟩, ⟨"/a/y.rs"⟩] :=
    toOption_eq_some_iff.1 (by decide +kernel)
  have hfile : ∀ path, (readFile namingTree path).toOption.map (fun f => f.unit.syntaxErrors) = some [] →
      ∃ f, readFile namingTree path = .ok f ∧ f.unit.syntaxErrors = [] := by
    intro path hpath
    obtain ⟨f, hf, hwell⟩ := Option.map_eq_some_iff.1 hpath
    exact ⟨f, toOption_eq_some_iff.1 hf, hwell⟩
  obtain ⟨info, h, hconflict, -⟩ := @read_tells_names namingTree Program.rootOnly ⟨"/a"⟩ _ (by decide +kernel)
    hpaths (List.forall_mem_cons.2 ⟨hfile _ (by decide +kernel),
      List.forall_mem_singleton.2 (hfile _ (by decide +kernel))⟩)
  have hnaming : (read namingTree Program.rootOnly ⟨"/a"⟩).toOption.map naming =
      some (["m", "n"], [(["m"], some "m", 0), (["n"], some "n", 0)]) := by decide +kernel
  rw [h] at hnaming
  obtain ⟨-, hfiles⟩ := Prod.mk.inj (Option.some.inj hnaming)
  obtain ⟨f, fs, hsplit, hf, hfs⟩ := List.map_eq_cons_iff.1 hfiles
  obtain ⟨g, gs, rfl, hg, hgs⟩ := List.map_eq_cons_iff.1 hfs
  obtain rfl := List.map_eq_nil_iff.1 hgs
  simp only [Prod.mk.injEq] at hf hg
  obtain ⟨hfnames, hfkept, -⟩ := hf
  obtain ⟨hgnames, hgkept, -⟩ := hg
  have hkept : ∀ f ∈ info.files, f.unit.KeepsNames := by
    rw [hsplit]
    refine List.forall_mem_cons.2 ⟨?_, List.forall_mem_singleton.2 ?_⟩
    · simp [SourceUnit.KeepsNames, hfnames, hfkept]
    · simp [SourceUnit.KeepsNames, hgnames, hgkept]
  have hm : "m" ∈ info.packageNames := by simp [packageNames, hsplit, hfnames]
  have hn : "n" ∈ info.packageNames := by simp [packageNames, hsplit, hgnames]
  obtain ⟨first, -, second, -, hne, htells⟩ := hconflict hkept ⟨"m", hm, "n", hn, by decide⟩
  exact ⟨info, first, second, h, hne, htells⟩

/-- **Not all different names are told**: what an earlier attribute of a file carries is lost. -/
theorem not_forall_names_told : ¬ ∀ (t : FileTree) (roots : SourceRoots) (dir : FilePath) (info : PackageInfo),
    read t roots dir = .ok info → (∀ f ∈ info.files, f.unit.syntaxErrors = []) →
      (∃ name ∈ info.packageNames, ∃ other ∈ info.packageNames, name ≠ other) →
        ∃ first second, importDirectory t roots dir = .error (.conflictingNames info.dir first second) := by
  intro hall
  obtain ⟨info, hinfo, hnaming⟩ := Option.map_eq_some_iff.1 (show
    (read namingTree Program.rootOnly ⟨"/b"⟩).toOption.map naming =
      some (["n"], [(["m", "n"], some "n", 0)]) by decide +kernel)
  have h := toOption_eq_some_iff.1 hinfo
  obtain ⟨hdeclared, hfiles⟩ := Prod.mk.inj hnaming
  obtain ⟨f, fs, hsplit, hf, hfs⟩ := List.map_eq_cons_iff.1 hfiles
  obtain rfl := List.map_eq_nil_iff.1 hfs
  simp only [Prod.mk.injEq] at hf
  obtain ⟨hnames, -, herrors⟩ := hf
  have hwell : ∀ f ∈ info.files, f.unit.syntaxErrors = [] := by
    rw [hsplit]
    exact List.forall_mem_singleton.2 (List.length_eq_zero_iff.1 herrors)
  have hcarried : ∀ name ∈ ["m", "n"], name ∈ info.packageNames := by
    simp [packageNames, hsplit, hnames]
  obtain ⟨first, second, herror⟩ := hall namingTree Program.rootOnly ⟨"/b"⟩ info h hwell
    ⟨"m", hcarried "m" (by simp), "n", hcarried "n" (by simp), by decide⟩
  have hok := (tellsNoConflict_of_declaredNames h hwell hdeclared).imported
  exact absurd (herror.symm.trans hok) (by simp)

end PackageInfo

end ModelPool
