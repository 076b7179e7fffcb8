import ModelPool.Proofs.Pool.Aliases
import ModelPool.Proofs.Pool.FileReading
import ModelPool.Proofs.Pool.Provenance
import ModelPool.Proofs.Pool.TypeWriting

/-!
# Proofs/Pool/Rendering — what the files of a pool are written from

A target is written by the text of a path, so a resolved type is written as the type expression over these
paths, and the file of a model is put together from such expressions.

* `render_shown` — a written type is the text of a type expression.
* `exists_models_of_poolSources` — the files among the sources.
* `Contains.isPlain` — when the file of a model reads back.
-/

namespace ModelPool

open Text Source TypeExpr

namespace Emitter

variable {e : Emitter} {m : MergedModel}

/-! ## Types -/

/-- **The path by which a target is written.** -/
def segments (e : Emitter) : TypeTarget → List String
  | .builtin name => [name]
  | .generic path => (splitColons path.toList).map String.ofList
  | .external path => path
  | .unresolved path => path
  | .declared package name => if package = e.pool then [name] else [e.aliasOf package, name]

theorem shown_eq_pathText (target : TypeTarget) : e.shown target = pathText (e.segments target) := by
  cases target with
  | builtin name => simp [shown, TypeTarget.text, segments, pathText]
  | generic path => exact (pathText_splitColons path).symm
  | external path => rfl
  | unresolved path => rfl
  | declared package name =>
    rw [shown, segments]
    split
    · simp [pathText]
    · simp [pathText, String.intercalate_cons_cons]

/-- The type expression that a resolved type is written as. -/
def expression (e : Emitter) (t : ResolvedType) : TypeExpr := t.map e.segments

/-- **A written type is the text of a type expression.** -/
theorem render_shown (t : ResolvedType) : t.render e.shown = (e.expression t).text := by
  rw [TypeExpr.text, expression, Ty.render_map, funext shown_eq_pathText]

/-! ## Files -/

/-- The fields of a model with the type expressions that their types are written as. -/
def expressions (e : Emitter) (m : MergedModel) : List (MergedField × TypeExpr) :=
  m.fields.map fun f => (f, e.expression f.type)

/-- **The file of a model is put together from its type expressions.** -/
theorem model_eq_text {content : String} (h : e.model m = .ok content) :
    content = preamble e.poolName ++ e.useLines (e.importedPackages m) ++ "\n" ++ modelDocs m ++
      structLines m ((e.expressions m).map fun f => (f.1, f.2.text)) ++ "\n" ++ implLines m := by
  rw [(model_eq_ok_iff.1 h).2, expressions, List.map_map, importedPackages]
  simp only [render_shown, Function.comp_def]

/-- **Each model has its file among those of the models**, and no two files have one name. -/
theorem forall₂_of_modelFiles {ms : List MergedModel} {used sources : List (String × String)}
    (h : e.modelFiles used ms = .ok sources) :
    List.Forall₂ (fun m source => source.1 = modelFile m.name ∧ e.model m = .ok source.2) ms sources ∧
      (sources.map Prod.fst).Nodup ∧ ∀ source ∈ sources, source.1 ∉ used.map Prod.fst := by
  induction ms generalizing used sources with
  | nil =>
    obtain rfl := Except.ok.inj h
    exact ⟨.nil, List.nodup_nil, by simp⟩
  | cons m r ih =>
    unfold modelFiles at h
    dsimp only at h
    split at h
    · simp at h
    · next hnew =>
      obtain ⟨content, hcontent, h⟩ := bind_eq_ok_iff.1 h
      obtain ⟨others, hothers, h⟩ := bind_eq_ok_iff.1 h
      obtain rfl := Except.ok.inj h
      obtain ⟨hall, hnodup, hused⟩ := ih hothers
      have hfresh : modelFile m.name ∉ used.map Prod.fst := by
        intro hmem
        obtain ⟨entry, hentry, hname⟩ := List.mem_map.1 hmem
        have hne := List.lookup_eq_none_iff.1 hnew entry hentry
        rw [hname] at hne
        simp at hne
      refine ⟨.cons ⟨rfl, hcontent⟩ hall, ?_, ?_⟩
      · rw [List.map_cons, List.nodup_cons]
        refine ⟨fun hmem => ?_, hnodup⟩
        obtain ⟨source, hsource, hname⟩ := List.mem_map.1 hmem
        exact hused source hsource (List.mem_map.2 ⟨_, List.mem_cons_self, hname.symm⟩)
      · refine List.forall_mem_cons.2 ⟨hfresh, fun source hsource hmem => ?_⟩
        exact hused source hsource (List.mem_cons_of_mem _ hmem)

/-- **What a model needs so that nothing of it leaves its place**: its name begins a path, its documentation
and the packages it lists have no line feeds, nothing in the types of its fields is kept as text, and the
packages that it imports are paths of words. -/
structure Contains (e : Emitter) (m : MergedModel) : Prop where
  name : isPathHead m.name = true
  docs : ∀ line ∈ m.docs, '\n' ∉ line.toList
  packages : ∀ package ∈ m.packages, '\n' ∉ package.toList
  fieldDocs : ∀ f ∈ m.fields, ∀ line ∈ f.docs, '\n' ∉ line.toList
  types : ∀ f ∈ m.fields, (e.expression f.type).isStructured = true
  imports : ∀ package ∈ e.importedPackages m, IsImportPath package

instance (e : Emitter) (m : MergedModel) : Decidable (e.Contains m) :=
  decidable_of_iff (isPathHead m.name = true ∧ (∀ line ∈ m.docs, '\n' ∉ line.toList) ∧
    (∀ package ∈ m.packages, '\n' ∉ package.toList) ∧
    (∀ f ∈ m.fields, ∀ line ∈ f.docs, '\n' ∉ line.toList) ∧
    (∀ f ∈ m.fields, (e.expression f.type).isStructured = true) ∧
    ∀ package ∈ e.importedPackages m, IsImportPath package)
    ⟨fun ⟨h₁, h₂, h₃, h₄, h₅, h₆⟩ => ⟨h₁, h₂, h₃, h₄, h₅, h₆⟩,
      fun h => ⟨h.name, h.docs, h.packages, h.fieldDocs, h.types, h.imports⟩⟩

end Emitter

/-- The line that tells the packages ends in the mark behind the last of them. -/
theorem isDocLine_mergedFrom {packages : List String} (hne : packages ≠ [])
    (h : ∀ package ∈ packages, '\n' ∉ package.toList) :
    IsDocLine ("Merged from: " ++ ", ".intercalate (packages.map marked)) := by
  have hmark : ∀ package, (marked package).toList = '`' :: package.toList ++ ['`'] := by
    intro package
    simp [marked]
  have hlist : ∃ front, (", ".intercalate (packages.map marked)).toList = front ++ ['`'] ∧
      '\n' ∉ front := by
    induction packages with
    | nil => exact absurd rfl hne
    | cons package r ih =>
      obtain ⟨hpackage, hr⟩ := List.forall_mem_cons.1 h
      cases r with
      | nil => exact ⟨'`' :: package.toList, by simp [hmark], by simpa using hpackage⟩
      | cons next r =>
        obtain ⟨front, hfront, hnone⟩ := ih (by simp) hr
        refine ⟨'`' :: package.toList ++ '`' :: ',' :: ' ' :: front, ?_, by simp [hpackage, hnone]⟩
        rw [List.map_cons, List.map_cons, String.intercalate_cons_cons, String.toList_append,
          String.toList_append, hmark, ← List.map_cons, hfront]
        simp
  obtain ⟨front, hfront, hnone⟩ := hlist
  have htext : ("Merged from: " ++ ", ".intercalate (packages.map marked)).toList =
      "Merged from: ".toList ++ front ++ ['`'] := by
    rw [String.toList_append, hfront, List.append_assoc]
  refine ⟨?_, ?_⟩ <;> rw [htext]
  · simp [hnone]
  · exact trimEnd_append (by decide) (by simp) _

namespace Emitter

variable {pool poolName : String} {models : List MergedModel} {m : MergedModel}

/-- A path of words ends in its last segment. -/
theorem IsImportPath.getLast? {package : String} (h : IsImportPath package) :
    (splitPath package).getLast? = some (lastSegment package) := by
  obtain ⟨htext, hne, hwords⟩ := h
  obtain ⟨last, hlast⟩ := Option.ne_none_iff_exists'.1 (List.getLast?_eq_none_iff.not.2 hne)
  have hword := hwords last (List.mem_of_getLast? hlast)
  rw [hlast, ← lastSegment_pathText hlast (not_mem_of_isWord hword (by decide) (by decide)), htext]

/-- The new name of a package that is a path of words is a word. -/
theorem isWord_aliasOf {package : String} (h : IsImportPath package) :
    isWord ((ofModels pool poolName models).aliasOf package).toList = true := by
  obtain ⟨k, hk⟩ := exists_aliasOf_eq pool poolName models package
  rw [hk]
  exact isWord_numbered (h.2.2 _ (List.mem_of_getLast? h.getLast?)) k

/-- **The file of a contained model reads back.** -/
theorem Contains.isPlain (h : (ofModels pool poolName models).Contains m) (hm : m.IsNamed)
    (hpool : isWord poolName.toList = true) :
    IsPlain (ofModels pool poolName models) m ((ofModels pool poolName models).expressions m) where
  poolName := hpool
  name := h.name
  imports := h.imports
  newNames := by
    intro package hpackage a ha
    rw [newName?] at ha
    split at ha
    · exact absurd ha (by simp)
    · obtain rfl : (ofModels pool poolName models).aliasOf package = a := by simpa using ha
      exact isWord_aliasOf (h.imports package hpackage)
  docs := by
    intro line hline
    rcases List.mem_append.1 hline with hline | hline
    · rcases List.mem_append.1 hline with hline | hline
      · exact ⟨h.docs line hline, hm.docs line hline⟩
      · have hempty : IsDocLine "" := by decide
        split at hline
        · exact absurd hline List.not_mem_nil
        · rwa [List.mem_singleton.1 hline]
    · rw [List.mem_singleton.1 hline]
      exact isDocLine_mergedFrom hm.packages h.packages
  fields := by
    intro f hf
    obtain ⟨g, hg, rfl⟩ := List.mem_map.1 hf
    exact ⟨hm.fieldNames g hg, h.types g hg, fun line hline =>
      ⟨h.fieldDocs g hg line hline, hm.fieldDocs g hg line hline⟩⟩
  fields_eq := by simp [expressions, Function.comp_def]

/-- So what is written for it declares it. -/
theorem Contains.declares (h : (ofModels pool poolName models).Contains m) (hm : m.IsNamed)
    (hpool : isWord poolName.toList = true) {content : String}
    (hcontent : (ofModels pool poolName models).model m = .ok content) :
    (ofModels pool poolName models).Declares m ((ofModels pool poolName models).expressions m)
      (.ofText content) := by
  rw [model_eq_text hcontent]
  exact (h.isPlain hm hpool).declares

end Emitter

/-- The sources of a pool are the files that can be written for its models. -/
theorem poolSources_of_files {pool poolName : String} {p : Program} {models : List MergedModel}
    {files : List (String × String)} (hmodels : p.merge pool = .ok models)
    (hfiles : (Emitter.ofModels pool poolName models).files = .ok files) :
    poolSources pool poolName p = .ok (models.map MergedModel.name, files) := by
  unfold poolSources
  rw [hmodels]
  exact bind_eq_ok_iff.2 ⟨_, rfl, bind_eq_ok_iff.2 ⟨_, hfiles, rfl⟩⟩

/-- So they can be made where each file can. -/
theorem exists_poolSources_of_isOk {pool poolName : String} {p : Program} {models : List MergedModel}
    (hmodels : p.merge pool = .ok models)
    (hok : (Emitter.ofModels pool poolName models).files.isOk = true) :
    ∃ sources, poolSources pool poolName p = .ok (models.map MergedModel.name, sources) := by
  obtain ⟨files, hfiles⟩ := exists_eq_ok_of_isOk hok
  exact ⟨files, poolSources_of_files hmodels hfiles⟩

/-- **What the sources of a pool are**: the file of each model, no two of one name, and the registry. -/
theorem exists_models_of_poolSources {pool poolName : String} {p : Program} {names : List String}
    {sources : List (String × String)} (h : poolSources pool poolName p = .ok (names, sources)) :
    ∃ models files, p.merge pool = .ok models ∧ names = models.map MergedModel.name ∧
      sources = files ++ [(registryFile, (Emitter.ofModels pool poolName models).registry)] ∧
      List.Forall₂ (fun m source => source.1 = modelFile m.name ∧
        (Emitter.ofModels pool poolName models).model m = .ok source.2) models files ∧
      (files.map Prod.fst).Nodup := by
  obtain ⟨models, hmodels, h⟩ := bind_eq_ok_iff.1 h
  obtain ⟨written, hwritten, h⟩ := bind_eq_ok_iff.1 h
  obtain ⟨rfl, rfl⟩ := Prod.mk.inj (Except.ok.inj h)
  obtain ⟨files, hfiles, h⟩ := bind_eq_ok_iff.1 hwritten
  obtain rfl := Except.ok.inj h
  obtain ⟨hall, hnodup, -⟩ := Emitter.forall₂_of_modelFiles hfiles
  exact ⟨models, files, hmodels, rfl, rfl, hall, hnodup⟩

/-- **The file of a model** is among the sources. -/
theorem exists_text_of_model {pool poolName : String} {p : Program} {models : List MergedModel}
    {m : MergedModel} {names : List String} {sources : List (String × String)}
    (hmodels : p.merge pool = .ok models) (hsources : poolSources pool poolName p = .ok (names, sources))
    (hm : m ∈ models) : ∃ text, (modelFile m.name, text) ∈ sources ∧
      (Emitter.ofModels pool poolName models).model m = .ok text := by
  obtain ⟨ms, files, hms, -, rfl, hall, -⟩ := exists_models_of_poolSources hsources
  obtain rfl : ms = models := Except.ok.inj (hms.symm.trans hmodels)
  obtain ⟨⟨_, text⟩, hsource, rfl, htext⟩ := exists_of_forall₂ hall hm
  exact ⟨text, List.mem_append_left _ hsource, htext⟩

/-- **What it declares** if the model is contained. -/
theorem exists_source_of_model {t : FileTree} {roots : SourceRoots} {imports : ImportSet} {mode : LoadMode}
    {p : Program} {pool poolName : String} {models : List MergedModel} {m : MergedModel}
    {names : List String} {sources : List (String × String)} (h : Program.load t roots imports mode = .ok p)
    (hpool : isWord poolName.toList = true) (hmodels : p.merge pool = .ok models)
    (hsources : poolSources pool poolName p = .ok (names, sources)) (hm : m ∈ models) :
    ∃ text, (modelFile m.name, text) ∈ sources ∧
      ((Emitter.ofModels pool poolName models).Contains m →
        (Emitter.ofModels pool poolName models).Declares m
          ((Emitter.ofModels pool poolName models).expressions m) (.ofText text)) := by
  obtain ⟨text, hsource, htext⟩ := exists_text_of_model hmodels hsources hm
  exact ⟨text, hsource, fun hcontains =>
    hcontains.declares (Program.isNamed_of_merge h hmodels hm) hpool htext⟩

end ModelPool
