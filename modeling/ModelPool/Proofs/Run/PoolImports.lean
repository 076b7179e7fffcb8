import ModelPool.Proofs.Load.Importing
import ModelPool.Proofs.Pool.Reloading
import ModelPool.Proofs.Run.Filling

/-!
# Proofs/Run/PoolImports — what the second load reads in the pool

    a.rs           use b;  use m::b as b_2;     where the types of   A   are declared
    registry.rs    nothing
    temp.rs        nothing

Under whichever import path the second load lists the directory of the pool, its files are those that have
been written and the placeholder.  So the pool imports nothing but the packages that the types of its models
are declared in, and it contributes no models.

* `TwoPasses.exists_reload` — the second load repeats the first one.
* `TwoPasses.listsOwners_of_ownPaths` — when the first load has listed these packages.
* `TwoPasses.isPool_files` — the files of the pool.
* `TwoPasses.importsListed`, `TwoPasses.contributesNothing` — what it imports and contributes.
-/

namespace ModelPool

open FileTree

namespace RunConfig.TwoPasses

variable {c : RunConfig} {t : FileTree} (p : TwoPasses c t)

/-- **Nothing in the models leaves its place** when their files are read. -/
def IsContained : Prop :=
  ∀ m ∈ p.models, (Emitter.ofModels c.pool c.poolName p.models).Contains m

/-- **The first load lists each package that a type of its models is declared in**, but for the pool. -/
def ListsOwners : Prop :=
  ∀ m ∈ p.models, ∀ f ∈ m.fields, ∀ owner name,
    .declared owner name ∈ ResolvedType.targets f.type →
      owner = c.pool ∨ ∃ a ∈ p.first.packages, a.importPath = owner

/-- These are the packages that the models import. -/
theorem listsOwners_iff : p.ListsOwners ↔ ∀ m ∈ p.models,
    ∀ q ∈ (Emitter.ofModels c.pool c.poolName p.models).importedPackages m,
      q ∈ p.first.packages.map Package.importPath := by
  refine forall₂_congr fun m _ => ⟨fun h q hq => ?_, fun h f hf owner name htarget => ?_⟩
  · obtain ⟨hne, type, htype, name, htarget⟩ := mem_outsidePackages.1 hq
    obtain ⟨f, hf, rfl⟩ := List.mem_map.1 htype
    exact List.mem_map.2 ((h f hf q name htarget).resolve_left hne)
  · by_cases howner : owner = c.pool
    · exact .inl howner
    · exact .inr (List.mem_map.1 (h owner
        (mem_outsidePackages.2 ⟨howner, _, List.mem_map_of_mem hf, name, htarget⟩)))

/-- So this asks for nothing if the models import none. -/
theorem listsOwners_of_forall (h : ∀ m ∈ p.models,
    (Emitter.ofModels c.pool c.poolName p.models).importedPackages m = []) : p.ListsOwners :=
  p.listsOwners_iff.2 fun m hm _ hq => absurd (h m hm ▸ hq) List.not_mem_nil

/-! ## The tree between both loads -/

/-- **The tree has grown in the directory of the pool**, in which the placeholder stands. -/
theorem exists_grows
    (hroot : t.isDirectory c.frameworkRoot = true ∨ .up ∉ c.poolPath.components) :
    ∃ d, Grows d p.staged (c.run t).tree ∧ p.staged.HoldsSource d ∧
      (c.run t).tree.find c.poolPath = .ok (d, .directory) := by
  have hend := endsInName_poolPath p.directory
  have hd := (consists_of_stage hend p.stage_eq).1
  have honly := holdsOnly_of_stage hend p.stage_eq (findsDirectory_poolPath p.directory hroot)
  have hother : ∀ name, name ≠ placeholderFile →
      ∀ bytes, p.staged.at? (t.leads c.poolPath ++ [name]) ≠ some (.file bytes) :=
    fun name hne bytes hat => hne (List.mem_singleton.1 (honly.only name bytes hat))
  obtain ⟨models, hmodels, -, hsources⟩ := poolSources_eq_ok p.sources_eq
  have hnames : ∀ source ∈ p.sources, IsName source.1 ∧
      ∀ bytes, p.staged.at? (t.leads c.poolPath ++ [source.1]) ≠ some (.file bytes) := by
    intro source hsource
    rcases hsources source hsource with ⟨m, hm, hname⟩ | hname
    · rw [hname]
      exact ⟨isName_modelFile (Program.isWord_of_merge p.first_eq hmodels hm),
        hother _ (modelFile_ne_placeholderFile m.name)⟩
    · rw [hname]
      exact ⟨isName_registryFile, hother _ (by decide)⟩
  have hgrows : Grows (t.leads c.poolPath) p.staged (c.run t).tree := by
    rw [p.tree_eq]
    exact grows_writeAll hd hnames (Grows.refl honly.directory)
  have hplaceholder := honly.file (placeholderEntry c.poolPath) List.mem_cons_self
  exact ⟨_, hgrows, ⟨placeholderFile, _, hplaceholder, isSourceName_placeholderFile⟩,
    hgrows.find_directory_iff.2 hd⟩

/-- **The second load repeats the first one**, with the pool. -/
theorem exists_reload
    (hroot : t.isDirectory c.frameworkRoot = true ∨ .up ∉ c.poolPath.components) :
    ∃ d, Program.Reload d p.staged (c.run t).tree p.resolution.imports
        (c.strictImports p.resolution.imports) c.pool ∧
      (c.run t).tree.find c.poolPath = .ok (d, .directory) := by
  obtain ⟨d, hgrows, hsource, hfind⟩ := p.exists_grows hroot
  have htrimmed := trimmed_pool p.directory
  refine ⟨d, ⟨hgrows, hsource, fun entry hentry => ?_, fun entry hentry => ?_⟩, hfind⟩
  · unfold strictImports
    split
    · exact hentry
    · exact List.mem_append_left _ hentry
  · unfold strictImports at hentry
    split at hentry
    · exact .inl hentry
    · rcases List.mem_append.1 hentry with hold | hpool
      · exact .inl hold
      · rw [List.mem_singleton.1 hpool]
        exact .inr htrimmed

/-! ## Packages of the types -/

/-- **A package that the types of a model are declared in is listed by the first load**, if this has loaded
each package under the path that its directory has.  The second load is strict, so what is imported is there. -/
theorem listsOwners_of_ownPaths
    (hroot : t.isDirectory c.frameworkRoot = true ∨ .up ∉ c.poolPath.components)
    (hown : ∀ a ∈ p.first.packages, a.importPath ≠ c.pool →
      (c.roots p.staged).importPath? p.staged a.dir = some a.importPath) : p.ListsOwners := by
  intro m hm f hf owner name htarget
  obtain ⟨path, file, i, ⟨hpath, ⟨info, hinfo, hfile⟩, -⟩, -, x, -, -, -, htype⟩ :=
    Program.exists_struct_of_field p.first_eq p.models_eq hm hf
  rw [htype, ResolvedType.targets, Ty.names_map] at htarget
  obtain ⟨names, -, hnames⟩ := List.mem_map.1 htarget
  rcases Scope.loaded_or_refersTo hnames with hloaded | hrefers
  · obtain ⟨ds, hds⟩ := Option.isSome_iff_exists.1 hloaded
    obtain ⟨other, hother, -⟩ := Program.Reload.declarations?_eq_some_iff.1 hds
    exact .inr ⟨_, Program.mem_packages_of_loaded p.first_eq hother, rfl⟩
  · obtain ⟨u, hu, howner⟩ := Scope.exists_package?_of_refersTo hrefers
    obtain ⟨⟨dir, -, hread⟩, -⟩ := Program.mem_loaded_iff.1 hinfo
    rcases PackageInfo.imports_or_own hread hfile hu howner with himported | hself
    · obtain ⟨d, hreload, -⟩ := p.exists_reload hroot
      have hlisted := hreload.mem_loaded_of_import p.second_eq hinfo himported
      rw [← Program.importPaths_of_load p.first_eq] at hlisted
      exact .inr (List.mem_map.1 hlisted)
    · have hchecked := Program.mem_packages_of_loaded p.first_eq hinfo
      obtain ⟨place, -, -, hdir, himportPath⟩ := PackageInfo.exists_place_of_read hread
      have hsame := hown _ hchecked hpath
      change (c.roots p.staged).importPath? p.staged info.dir = some path at hsame
      rw [hdir, ← himportPath, hself] at hsame
      exact .inr ⟨_, hchecked, (Option.some.inj hsame).symm⟩

/-! ## The package of the pool -/

variable (h : (c.run t).state = .done) (hempty : c.emptyPool = false) {d : Place}
  (hfind : (c.run t).tree.find c.poolPath = .ok (d, .directory)) {path : String} {info : PackageInfo}
  (hinfo : (path, info) ∈ (Program.walkOf (c.run t).tree (c.roots p.staged)
    (c.strictImports p.resolution.imports)).loaded)
  (hpool : path = c.pool ∨ info.dir = .ofPlace d)

include h hempty hfind hinfo hpool

/-- **What is listed for the pool is read in its directory.** -/
theorem exists_read : ∃ dir, (c.run t).tree.find dir = .ok (d, .directory) ∧
    PackageInfo.read (c.run t).tree (c.roots p.staged) dir = .ok info := by
  obtain ⟨⟨dir, hdir, hread⟩, -⟩ := Program.mem_loaded_iff.1 hinfo
  refine ⟨dir, ?_, hread⟩
  rcases hpool with rfl | hplace
  · obtain ⟨found, hfound, hplace⟩ := p.exists_find? h hempty
    obtain rfl : found = dir := Option.some.inj (hfound.symm.trans hdir)
    exact hplace.trans hfind
  · obtain ⟨place, hfound, -, hdirOf, -⟩ := PackageInfo.exists_place_of_read hread
    obtain rfl : place = d := FilePath.ofPlace_inj
      ((c.run t).tree.isName_of_at? ((c.run t).tree.find_eq_ok_iff.1 hfound).2)
      ((c.run t).tree.isName_of_at? ((c.run t).tree.find_eq_ok_iff.1 hfind).2) (hdirOf.symm.trans hplace)
    exact hfound

variable (hfinds : t.FindsDirectory c.poolPath) (hcontains : p.IsContained)

include hfinds hcontains

/-- **The files of the pool** are those of a filled one. -/
theorem isPool_files : (Emitter.ofModels c.pool c.poolName p.models).IsPool info.files := by
  obtain ⟨dir, hdir, hread⟩ := p.exists_read h hempty hfind hinfo hpool
  obtain ⟨d', -, hfind', -, -, hholdsOnly⟩ := p.exists_pool h hempty
  obtain rfl : d' = d := congrArg Prod.fst (Except.ok.inj (hfind'.symm.trans hfind))
  exact isPool_of_poolSources p.first_eq c.isWord_poolName p.models_eq p.sources_eq hcontains
    fun f => (hholdsOnly hfinds).mem_files_iff hdir hread

/-- **The pool imports the packages of its models**, and nothing else. -/
theorem exists_importedPackages {q : String} (hq : q ∈ info.imports) : ∃ m ∈ p.models,
    q ∈ (Emitter.ofModels c.pool c.poolName p.models).importedPackages m := by
  have hisPool := p.isPool_files h hempty hfind hinfo hpool hfinds hcontains
  obtain ⟨dir, -, hread⟩ := p.exists_read h hempty hfind hinfo hpool
  rw [PackageInfo.imports_of_read hread] at hq
  obtain ⟨⟨f, hf, u, hu, hdependency⟩, -⟩ := PackageInfo.mem_importsOf_iff.1 hq
  obtain ⟨m, hm, package, hpackage, hentry⟩ := hisPool.exists_isEntry c.isWord_poolName
    (fun m hm => p.isWord_name hm) hf hu
  have hpath := (hcontains m hm).imports package hpackage
  have hfound := p.isSome_find? (Program.isSome_find?_of_importedPackages p.first_eq p.models_eq hm hpackage)
  obtain rfl : q = package := PackageInfo.eq_of_dependency? hpath hfound hentry.path hentry.glob hdependency
  exact ⟨m, hm, hpackage⟩

omit hinfo hpool in
/-- **So the pool imports what the first load has listed.** -/
theorem importsListed (howners : p.ListsOwners) : Program.ImportsListed d c.pool
    (Program.walkOf p.staged (c.roots p.staged) p.resolution.imports).loaded
    (Program.walkOf (c.run t).tree (c.roots p.staged) (c.strictImports p.resolution.imports)).loaded := by
  intro x hinfo hpool q hq
  obtain ⟨m, hm, himported⟩ := p.exists_importedPackages h hempty hfind hinfo hpool hfinds hcontains hq
  rw [← Program.importPaths_of_load p.first_eq]
  exact .inr (p.listsOwners_iff.1 howners m hm q himported)

omit hinfo hpool in
/-- **And it contributes no models**, not even under another import path. -/
theorem contributesNothing : Program.Reload.ContributesNothing d c.pool
    (Program.walkOf (c.run t).tree (c.roots p.staged) (c.strictImports p.resolution.imports)).loaded := by
  intro x hinfo hdir _ f hf
  exact (p.isPool_files h hempty hfind hinfo (.inr hdir) hfinds hcontains).models_eq_nil c.isWord_poolName
    (fun m hm => p.isWord_name hm) hf

end RunConfig.TwoPasses

end ModelPool
