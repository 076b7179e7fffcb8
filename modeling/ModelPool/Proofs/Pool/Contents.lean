import ModelPool.Proofs.Load.Reload
import ModelPool.Proofs.Pool.Clearing
import ModelPool.Proofs.Pool.Imports

/-!
# Proofs/Pool/Contents — the files of a pool and the names that they declare

    temp.rs        nothing
    order.rs       the type   Order
    _order.rs      nothing: the file is not seen
    registry.rs    the constant   MODEL_NAMES

A pool that has been filled declares its models as types, as far as their files are seen, and the registry's
constant, but nothing else.  It contributes no models itself, and imports what its models refer to.

* `IsPool.hasType_iff`, `IsPool.contains_iff` — what is declared.
* `IsPool.exists_isEntry` — what is imported.
* `isPool_of_poolSources` — the files of a filled pool are such.
-/

namespace ModelPool

open FileTree Text Source

/-! ## Files -/

namespace Program

variable {t : FileTree} {roots : SourceRoots} {imports : ImportSet} {mode : LoadMode} {p : Program}
  {pool poolName : String} {names : List String} {sources : List (String × String)}

/-- **The names of the sources of a pool**: those of the models' files, and that of the registry.  With that
of the placeholder they are all different. -/
theorem names_of_poolSources (h : load t roots imports mode = .ok p)
    (hsources : poolSources pool poolName p = .ok (names, sources)) (dir : FilePath) :
    sources.map Prod.fst = names.map modelFile ++ [registryFile] ∧
      (∀ source ∈ sources, IsName source.1) ∧
      ((placeholderEntry dir :: sources).map Prod.fst).Nodup := by
  obtain ⟨models, files, hmodels, rfl, rfl, hall, hnodup⟩ := exists_models_of_poolSources hsources
  have hfiles : files.map Prod.fst = models.map fun m => modelFile m.name := by
    have hnamed := hall.imp fun _ _ hboth => hboth.1
    clear hall hnodup hsources hmodels
    induction hnamed with
    | nil => rfl
    | cons hfirst _ ih => rw [List.map_cons, List.map_cons, hfirst, ih]
  have hnames : (files ++ [(registryFile, (Emitter.ofModels pool poolName models).registry)]).map
      Prod.fst = (models.map MergedModel.name).map modelFile ++ [registryFile] := by
    rw [List.map_append, hfiles, List.map_map]
    rfl
  have hword : ∀ m ∈ models, IsName (modelFile m.name) := fun m hm =>
    isName_modelFile (isWord_of_merge h hmodels hm)
  refine ⟨hnames, fun source hsource => ?_, ?_⟩
  · have hname : source.1 ∈ (models.map MergedModel.name).map modelFile ++ [registryFile] :=
      hnames ▸ List.mem_map_of_mem hsource
    rcases List.mem_append.1 hname with hmodel | hregistry
    · obtain ⟨name, hmem, heq⟩ := List.mem_map.1 hmodel
      obtain ⟨m, hm, rfl⟩ := List.mem_map.1 hmem
      exact heq ▸ hword m hm
    · rw [List.mem_singleton.1 hregistry]
      exact isName_registryFile
  · rw [List.map_cons, hnames, List.nodup_cons, List.nodup_append]
    refine ⟨?_, by rw [List.map_map]; exact hfiles ▸ hnodup, by simp, ?_⟩
    · rw [List.mem_append, not_or]
      have hregistry : placeholderFile ∉ [registryFile] := by decide
      refine ⟨fun hmem => ?_, hregistry⟩
      obtain ⟨name, -, heq⟩ := List.mem_map.1 hmem
      exact modelFile_ne_placeholderFile name heq
    · intro a ha b hb hab
      obtain ⟨name, -, rfl⟩ := List.mem_map.1 ha
      exact modelFile_ne_registryFile name (hab.trans (List.mem_singleton.1 hb))

end Program

/-! ## Names -/

namespace Emitter

/-- **The model is seen**, since its file is no hidden one. -/
def Shows (e : Emitter) (name : String) : Prop :=
  ∃ m ∈ e.models, isHiddenName m.name = false ∧ m.name = name

/-- The constant of the registry. -/
def registryConst : String := "MODEL_NAMES"

/-- **The files of a pool as they are read**: those of the models that are seen, the registry, and files that
declare and import nothing. -/
structure IsPool (e : Emitter) (files : List SourceFile) : Prop where
  model : ∀ m ∈ e.models, isHiddenName m.name = false →
    ∃ f ∈ files, e.Declares m (e.expressions m) f.unit
  registry : ∃ f ∈ files, f.unit = .ofText e.registry
  only : ∀ f ∈ files, (f.unit.items = [] ∧ f.unit.uses = []) ∨ f.unit = .ofText e.registry ∨
    ∃ m ∈ e.models, isHiddenName m.name = false ∧ e.Declares m (e.expressions m) f.unit

namespace IsPool

variable {e : Emitter} {files : List SourceFile} {name : String} (h : e.IsPool files)
  (hpool : isWord e.poolName.toList = true) (hmodels : ∀ m ∈ e.models, isWord m.name.toList = true)

include h hpool hmodels

/-- Each item of a pool is a model that is seen, or the registry's constant. -/
theorem shows_or_registryConst {i : Item} (hi : i ∈ files.flatMap fun f => f.unit.items) :
    i.kind.isType = true ∧ e.Shows i.name ∨ i.kind.isType = false ∧ i.name = registryConst := by
  obtain ⟨f, hf, hi⟩ := List.mem_flatMap.1 hi
  rcases h.only f hf with ⟨hnone, -⟩ | hregistry | ⟨m, hm, hseen, hdeclares⟩
  · exact absurd hi (hnone ▸ List.not_mem_nil)
  · obtain ⟨line, hunit⟩ := declares_registry hpool hmodels
    rw [hregistry, hunit] at hi
    obtain rfl := List.mem_singleton.1 hi
    exact .inr ⟨rfl, rfl⟩
  · obtain ⟨gs, line, -, hitems⟩ := hdeclares.item
    rw [hitems] at hi
    obtain rfl := List.mem_singleton.1 hi
    exact .inl ⟨rfl, m, hm, hseen, rfl⟩

/-- **The types of a pool are the models that are seen.** -/
theorem hasType_iff : (Declarations.ofFiles files).hasType name = true ↔ e.Shows name := by
  rw [Declarations.ofFiles, Declarations.hasType_ofItems]
  constructor
  · rintro ⟨i, hi, htype, rfl⟩
    rcases h.shows_or_registryConst hpool hmodels hi with ⟨-, hshown⟩ | ⟨hvalue, -⟩
    · exact hshown
    · rw [htype] at hvalue
      exact absurd hvalue (by decide)
  · rintro ⟨m, hm, hseen, rfl⟩
    obtain ⟨f, hf, hdeclares⟩ := h.model m hm hseen
    obtain ⟨gs, line, -, hitems⟩ := hdeclares.item
    exact ⟨_, List.mem_flatMap.2 ⟨f, hf, hitems ▸ List.mem_cons_self⟩, rfl, rfl⟩

/-- **All names of a pool** are these and the registry's constant. -/
theorem contains_iff : (Declarations.ofFiles files).contains name = true ↔
    name = registryConst ∨ e.Shows name := by
  have htypes := @hasType_iff e files name h hpool hmodels
  rw [Declarations.ofFiles, Declarations.hasType_ofItems] at htypes
  rw [Declarations.ofFiles, Declarations.contains_ofItems]
  constructor
  · rintro ⟨i, hi, rfl⟩
    exact (h.shows_or_registryConst hpool hmodels hi).symm.imp And.right And.right
  · rintro (rfl | hshown)
    · obtain ⟨f, hf, hregistry⟩ := h.registry
      obtain ⟨line, hunit⟩ := declares_registry hpool hmodels
      obtain ⟨i, hitems, hname⟩ : ∃ i, f.unit.items = [i] ∧ i.name = registryConst := by
        rw [hregistry, hunit]
        exact ⟨_, rfl, rfl⟩
      exact ⟨i, List.mem_flatMap.2 ⟨f, hf, hitems ▸ List.mem_cons_self⟩, hname⟩
    · obtain ⟨i, hi, -, hname⟩ := htypes.2 hshown
      exact ⟨i, hi, hname⟩

variable {f : SourceFile} (hf : f ∈ files)

include hf

/-- **A pool has no models of its own**: nothing that is written carries the attribute. -/
theorem models_eq_nil : f.unit.models = [] := by
  rw [SourceUnit.models]
  rcases h.only f hf with ⟨hnone, -⟩ | hregistry | ⟨m, -, -, hdeclares⟩
  · rw [hnone, List.filter_nil]
  · obtain ⟨line, hunit⟩ := declares_registry hpool hmodels
    rw [hregistry, hunit]
    rfl
  · obtain ⟨gs, line, -, hitems⟩ := hdeclares.item
    rw [hitems]
    rfl

/-- **A pool imports the packages of its models.** -/
theorem exists_isEntry {u : UseEntry} (hu : u ∈ f.unit.uses) :
    ∃ m ∈ e.models, ∃ package ∈ e.importedPackages m, e.IsEntry package u := by
  rcases h.only f hf with ⟨-, hnone⟩ | hregistry | ⟨m, hm, -, hdeclares⟩
  · exact absurd hu (hnone ▸ List.not_mem_nil)
  · obtain ⟨line, hunit⟩ := declares_registry hpool hmodels
    rw [hregistry, hunit] at hu
    exact absurd hu List.not_mem_nil
  · exact ⟨m, hm, hdeclares.exists_package hu⟩

end IsPool

end Emitter

open Emitter in
/-- **The files of a filled pool are such**, if nothing in its models leaves its place. -/
theorem isPool_of_poolSources {t : FileTree} {roots : SourceRoots} {imports : ImportSet} {mode : LoadMode}
    {p : Program} {pool poolName : String} {models : List MergedModel} {names : List String}
    {sources : List (String × String)} {dir : FilePath} {d : Place} {files : List SourceFile}
    (h : Program.load t roots imports mode = .ok p) (hpool : isWord poolName.toList = true)
    (hmodels : p.merge pool = .ok models) (hsources : poolSources pool poolName p = .ok (names, sources))
    (hcontains : ∀ m ∈ models, (ofModels pool poolName models).Contains m)
    (hfiles : ∀ f, f ∈ files ↔ ∃ source ∈ placeholderEntry dir :: sources,
      isSourceName source.1 = true ∧ f = sourceFileIn d source) :
    (ofModels pool poolName models).IsPool files where
  model := by
    intro m hm hseen
    obtain ⟨text, hsource, hdeclares⟩ := exists_source_of_model h hpool hmodels hsources hm
    have hname := (isSourceName_modelFile_iff (Program.isWord_of_merge h hmodels hm)).2 hseen
    exact ⟨_, (hfiles _).2 ⟨_, List.mem_cons_of_mem _ hsource, hname, rfl⟩, hdeclares (hcontains m hm)⟩
  registry := by
    obtain ⟨ms, sources', hms, -, rfl, -⟩ := exists_models_of_poolSources hsources
    obtain rfl : ms = models := Except.ok.inj (hms.symm.trans hmodels)
    exact ⟨_, (hfiles _).2 ⟨_, List.mem_cons_of_mem _ (List.mem_append_right _ List.mem_cons_self),
      isSourceName_registryFile, rfl⟩, rfl⟩
  only := by
    intro f hf
    obtain ⟨source, hsource, hname, rfl⟩ := (hfiles f).1 hf
    obtain ⟨ms, sources', hms, -, rfl, hall, -⟩ := exists_models_of_poolSources hsources
    obtain rfl : ms = models := Except.ok.inj (hms.symm.trans hmodels)
    rcases List.mem_cons.1 hsource with rfl | hsource
    · refine .inl ?_
      change (SourceUnit.ofText (preamble (ModelPool.poolName dir))).items = [] ∧
        (SourceUnit.ofText (preamble (ModelPool.poolName dir))).uses = []
      rw [ofText_preamble (isWord_poolName dir)]
      exact ⟨rfl, rfl⟩
    · rcases List.mem_append.1 hsource with hmodel | hregistry
      · obtain ⟨m, hm, hfile, hcontent⟩ := exists_of_forall₂ hall.flip hmodel
        rw [hfile, isSourceName_modelFile_iff (Program.isWord_of_merge h hmodels hm)] at hname
        exact .inr (.inr ⟨m, hm, hname,
          (hcontains m hm).declares (Program.isNamed_of_merge h hmodels hm) hpool hcontent⟩)
      · rw [List.mem_singleton.1 hregistry]
        exact .inr (.inl rfl)

end ModelPool
