import ModelPool.Files.Texts
import ModelPool.Proofs.Load.Counted
import ModelPool.Proofs.Load.Roots
import ModelPool.Proofs.Pool.Capture
import ModelPool.Proofs.Pool.Contents

/-!
# Proofs/Pool/Reloading — the pool that is loaded again

    program  ──merge──▸  models  ──write──▸  pool  ──load──▸  the same targets?

A pool that has been filled is loaded as a package like any other.  What the types of its models stand for then
can be told beforehand: it depends on the names that the pool declares and on the names of the packages that it
imports.

* `pool_keeps_targets` — when the types stand for what they have been written for.
* `not_forall_imports_accepted` — a package that is named like the registry's constant.
-/

namespace ModelPool

open FileTree Text Source Emitter

namespace Program

variable {t u : FileTree} {roots : SourceRoots} {imports imports' : ImportSet} {mode : LoadMode}
  {p : Program} {pool poolName : String} {models : List MergedModel} {names : List String}
  {sources : List (String × String)} {dir : FilePath} {d : Place} {output : Synthesis} {info : PackageInfo}

/-- The surroundings know the names of a package that is listed. -/
theorem declares_of_loaded {path name : String} (h : (path, info) ∈ (walkOf t roots imports).loaded) :
    (surroundingsOf t roots imports).declares path name = (Declarations.ofFiles info.files).contains name ∧
      (surroundingsOf t roots imports).declaresType path name =
        (Declarations.ofFiles info.files).hasType name := by
  have hds := Reload.declarations?_eq_some_iff.2 ⟨info, h, rfl⟩
  rw [Surroundings.declares, Surroundings.declaresType, hds]
  exact ⟨rfl, rfl⟩

/-- **A pool that is filled**: its directory holds the sources, and nothing else but the placeholder if this stood
there alone. -/
theorem holds_of_writeAll {files : List FilePath} (h : load t roots imports mode = .ok p)
    (hdir : t.find dir = .ok (d, .directory))
    (hsources : poolSources pool poolName p = .ok (names, sources))
    (hwrite : writeAll dir t sources = (u, .ok files)) :
    Fills d t u ∧ u.Holds d sources ∧ (t.HoldsOnly d [placeholderEntry dir] →
      u.HoldsOnly d (placeholderEntry dir :: sources)) := by
  obtain ⟨-, hnames, hnodup⟩ := names_of_poolSources h hsources dir
  have hfills : Fills d t (writeAll dir t sources).1 := fills_writeAll hdir hnames
  rw [hwrite] at hfills
  have hempty : t.Holds d [] := ⟨(t.find_eq_ok_iff.1 hdir).2, fun _ hnone => absurd hnone List.not_mem_nil⟩
  have hholds := @holds_writeAll t u d [] _ _ _ hdir hnames
    (List.nodup_cons.1 (List.map_cons (f := Prod.fst) ▸ hnodup)).2 hempty hwrite
  refine ⟨hfills, hholds.2.2.1, fun honly => ?_⟩
  exact (@holds_writeAll t u d [placeholderEntry dir] _ _ _ hdir hnames hnodup honly.toHolds hwrite).2.2.2 honly

/-- **The file of a model that is seen is read again.** -/
theorem exists_isReread (h : load t roots imports mode = .ok p) (hpool : isWord poolName.toList = true)
    (hsources : poolSources pool poolName p = .ok (names, sources)) (hmodels : p.merge pool = .ok models)
    (hfound : ∀ path, (roots.find? t path).isSome = true → (roots.find? u path).isSome = true)
    {files : List SourceFile} (hfiles : ∀ source ∈ sources, isSourceName source.1 = true → sourceFileIn d source ∈ files)
    {s : Surroundings} (hs : s.classify = roots.classify u) {m : MergedModel} (hm : m ∈ models)
    (hseen : isHiddenName m.name = false) (hcontains : (ofModels pool poolName models).Contains m) :
    ∃ f ∈ files, (ofModels pool poolName models).IsReread s m f := by
  obtain ⟨ms, hms, hresolved, -⟩ := poolSources_eq_ok hsources
  obtain rfl : ms = models := Except.ok.inj (hms.symm.trans hmodels)
  obtain ⟨text, hsource, hdeclares⟩ := exists_source_of_model h hpool hmodels hsources hm
  have hname := (isSourceName_modelFile_iff (isWord_of_merge h hmodels hm)).2 hseen
  exact ⟨_, hfiles _ hsource hname, isReread h hmodels hresolved hm hcontains.imports (hdeclares hcontains)
    hfound hs⟩

/-- **What the types of a pool stand for when it is loaded again.**  The file of a model that is seen and
contained is read again: its imports are accepted exactly if the pool does not declare their names, and a field
has the type that has been written exactly if every target in it is kept.  If the directory has held nothing but
the placeholder, and all models are contained, the names that the pool declares are those of the models that are
seen, and that of the registry's constant. -/
theorem pool_keeps_targets (h : load t roots imports mode = .ok p) (hpool : isWord poolName.toList = true)
    (hdir : t.find dir = .ok (d, .directory))
    (hfill : synthesizePool pool poolName t p dir = (u, .ok output))
    (hinfo : (pool, info) ∈ (walkOf u roots imports').loaded) (hplace : info.dir = .ofPlace d) :
    ∃ models, p.merge pool = .ok models ∧
      (∀ m ∈ models, isHiddenName m.name = false → (ofModels pool poolName models).Contains m →
        ∃ f ∈ info.files,
          (ofModels pool poolName models).IsReread (surroundingsOf u roots imports') m f) ∧
      (t.HoldsOnly d [placeholderEntry dir] → (∀ m ∈ models, (ofModels pool poolName models).Contains m) →
        ∀ name,
          ((surroundingsOf u roots imports').declares pool name = true ↔
            name = registryConst ∨ (ofModels pool poolName models).Shows name) ∧
          ((surroundingsOf u roots imports').declaresType pool name = true ↔
            (ofModels pool poolName models).Shows name)) := by
  obtain ⟨sources, hsources, hwrite⟩ := synthesizePool_eq_ok hfill
  obtain ⟨models, hmodels, -⟩ := poolSources_eq_ok hsources
  obtain ⟨hfills, hholds, hholdsOnly⟩ := holds_of_writeAll h hdir hsources hwrite
  -- the package is read from the directory of the pool
  obtain ⟨⟨found, -, hread⟩, -⟩ := mem_loaded_iff.1 hinfo
  obtain ⟨place, hfound, -, hdirOf, -⟩ := PackageInfo.exists_place_of_read hread
  obtain rfl : place = d := FilePath.ofPlace_inj (u.isName_of_at? (u.find_eq_ok_iff.1 hfound).2)
    (u.isName_of_at? hholds.directory) (hdirOf.symm.trans hplace)
  refine ⟨models, hmodels, fun m hm hseen hcontains => ?_, fun honly hcontains name => ?_⟩
  · exact exists_isReread h hpool hsources hmodels (fun _ => hfills.isSome_find?)
      (fun source hsource hname => hholds.mem_files hfound hread hsource hname) rfl hm hseen hcontains
  · have hisPool := isPool_of_poolSources h hpool hmodels hsources hcontains
      fun f => (hholdsOnly honly).mem_files_iff hfound hread
    have hwords : ∀ m ∈ models, isWord m.name.toList = true := fun m hm => isWord_of_merge h hmodels hm
    obtain ⟨hdeclares, htype⟩ := @declares_of_loaded u roots imports' info pool name hinfo
    rw [hdeclares, htype]
    exact ⟨hisPool.contains_iff hpool hwords, hisPool.hasType_iff hpool hwords⟩

/-! ## A package that is named like the constant -/

/-- A model with a field of a type of such a package. -/
def clashingTree : FileTree :=
  .ofTexts [(["a", "x.rs"], "use MODEL_NAMES::B;\n#[model]\nstruct A \x7b x: B, y: u8 \x7d"),
    (["MODEL_NAMES", "x.rs"], "pub struct B;")]

/-- The model. -/
def clashingModel : MergedModel :=
  ⟨"A", [], ["a"], [⟨"x", .path (.declared "MODEL_NAMES" "B") [], [], "a"⟩,
    ⟨"y", .path (.builtin "u8") [], [], "a"⟩]⟩

/-- The pool is filled and loaded again, which meets a problem. -/
theorem exists_clash : ∃ (t u : FileTree) (p q : Program) (d : Place) (output : Synthesis)
    (info : PackageInfo),
    (load t rootOnly ⟨["a"]⟩ .tolerant = .ok p ∧ p.diagnostics = [] ∧
      p.merge "pool" = .ok [clashingModel]) ∧
    (t.find ⟨"/pool"⟩ = .ok (d, .directory) ∧ t.HoldsOnly d [placeholderEntry ⟨"/pool"⟩] ∧
      synthesizePool "pool" "pool" t p ⟨"/pool"⟩ = (u, .ok output)) ∧
    (("pool", info) ∈ (walkOf u rootOnly ⟨["pool"]⟩).loaded ∧ info.dir = .ofPlace d) ∧
    load u rootOnly ⟨["pool"]⟩ .tolerant = .ok q ∧ ∃ x ∈ q.diagnostics, x.kind = .redeclared := by
  obtain ⟨t, hstage, hfind, p, hp, ⟨hnone, hmodels⟩, hfilled, hlisted, hkinds⟩ :
      ∃ t, clashingTree.stage ⟨"/pool"⟩ = (t, .ok ⟨"/pool/temp.rs"⟩) ∧
        t.find ⟨"/pool"⟩ = .ok (["pool"], .directory) ∧
      ∃ p, load t rootOnly ⟨["a"]⟩ .tolerant = .ok p ∧
        (p.diagnostics = [] ∧ p.merge "pool" = .ok [clashingModel]) ∧
        (synthesizePool "pool" "pool" t p ⟨"/pool"⟩).2 =
          .ok ⟨["A"], [⟨"/pool/a.rs"⟩, ⟨"/pool/registry.rs"⟩]⟩ ∧
        ("pool", FilePath.ofPlace ["pool"]) ∈ (walkOf (synthesizePool "pool" "pool" t p ⟨"/pool"⟩).1 rootOnly
          ⟨["pool"]⟩).loaded.map (fun x => (x.1, x.2.dir)) ∧
        .redeclared ∈ (ofWalk (synthesizePool "pool" "pool" t p ⟨"/pool"⟩).1 rootOnly ⟨["pool"]⟩ .tolerant
          (walkOf (synthesizePool "pool" "pool" t p ⟨"/pool"⟩).1 rootOnly ⟨["pool"]⟩)).diagnostics.map
            Diagnostic.kind :=
    ⟨(clashingTree.stage ⟨"/pool"⟩).1, Prod.ext rfl (by decide +kernel), by decide +kernel, _,
      load_eq_ok_counted (by simp) nofun, by rw [← countedWalk_eq]; decide +kernel⟩
  have hend : FilePath.EndsInName ⟨"/pool"⟩ := ⟨[""], "pool", by decide, ⟨by decide, by decide, by decide, by decide⟩⟩
  have hd := (consists_of_stage hend hstage).1
  have honly := holdsOnly_of_stage hend hstage
    (clashingTree.findsDirectory_of_not_up (by decide) (by decide))
  have hleads : clashingTree.leads ⟨"/pool"⟩ = ["pool"] :=
    congrArg Prod.fst (Except.ok.inj (hd.symm.trans hfind))
  rw [hleads] at hd honly
  obtain ⟨⟨_, info⟩, hinfo, heq⟩ := List.mem_map.1 hlisted
  obtain ⟨rfl, hplace⟩ := Prod.mk.inj heq
  obtain ⟨x, hx, hkind⟩ := List.mem_map.1 hkinds
  exact ⟨t, _, p, _, _, _, info, ⟨hp, hnone, hmodels⟩, ⟨hd, honly, Prod.ext rfl hfilled⟩, ⟨hinfo, hplace⟩,
    load_eq_ok_iff.2 ⟨by simp, rfl, nofun⟩, x, hx, hkind⟩

/-- Its file is read again, but the import in it is refused. -/
theorem pool_keeps_targets_clash : ∃ (t u : FileTree) (p : Program) (d : Place) (output : Synthesis)
    (info : PackageInfo), load t rootOnly ⟨["a"]⟩ .tolerant = .ok p ∧ isWord "pool".toList = true ∧
    t.find ⟨"/pool"⟩ = .ok (d, .directory) ∧
    synthesizePool "pool" "pool" t p ⟨"/pool"⟩ = (u, .ok output) ∧
    ("pool", info) ∈ (walkOf u rootOnly ⟨["pool"]⟩).loaded ∧ info.dir = .ofPlace d ∧
    ∃ f ∈ info.files, (ofModels "pool" "pool" [clashingModel]).IsReread
        (surroundingsOf u rootOnly ⟨["pool"]⟩) clashingModel f ∧
      ∃ x ∈ (Scope.ofFile (surroundingsOf u rootOnly ⟨["pool"]⟩) "pool" f).found, x.kind = .redeclared := by
  obtain ⟨t, u, p, -, d, output, info, ⟨hp, -, hmodels⟩, ⟨hdir, honly, hfill⟩, ⟨hinfo, hplace⟩, -⟩ :=
    exists_clash
  refine ⟨t, u, p, d, output, info, hp, by decide, hdir, hfill, hinfo, hplace, ?_⟩
  obtain ⟨models, hmodels', hread, hnames⟩ := pool_keeps_targets hp (by decide) hdir hfill hinfo hplace
  obtain rfl : [clashingModel] = models := Except.ok.inj (hmodels.symm.trans hmodels')
  have hcontains : (ofModels "pool" "pool" [clashingModel]).Contains clashingModel := by decide +kernel
  obtain ⟨f, hf, hreread⟩ := hread clashingModel List.mem_cons_self (by decide) hcontains
  refine ⟨f, hf, hreread, hreread.redeclared_iff.2 ⟨"MODEL_NAMES", by decide +kernel, by decide +kernel, ?_⟩⟩
  have halias : (ofModels "pool" "pool" [clashingModel]).aliasOf "MODEL_NAMES" = registryConst := by
    decide +kernel
  exact (hnames honly (by simpa using hcontains) _).1.2 (.inl halias)

/-- **Not every import of a pool is accepted** when the pool is loaded again, although the program it was made
of has no problems. -/
theorem not_forall_imports_accepted : ¬ ∀ (t u : FileTree) (roots : SourceRoots) (imports imports' : ImportSet)
    (p q : Program) (dir : FilePath) (d : Place) (output : Synthesis),
    load t roots imports .tolerant = .ok p → p.diagnostics = [] → t.find dir = .ok (d, .directory) →
      t.HoldsOnly d [placeholderEntry dir] → synthesizePool "pool" "pool" t p dir = (u, .ok output) →
      load u roots imports' .tolerant = .ok q → ∀ x ∈ q.diagnostics, x.kind ≠ .redeclared := by
  intro hall
  obtain ⟨t, u, p, q, d, output, info, ⟨hp, hnone, -⟩, ⟨hdir, honly, hfill⟩, -, hq, x, hx, hkind⟩ :=
    exists_clash
  exact hall t u rootOnly _ _ p q _ d output hp hnone hdir honly hfill hq x hx hkind

end Program

end ModelPool
