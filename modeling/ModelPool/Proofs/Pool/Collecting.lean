import ModelPool.Proofs.Load.Counted
import ModelPool.Proofs.Load.Packages
import ModelPool.Proofs.Pool.Contributions

/-!
# Proofs/Pool/Collecting — what the models are made of, and in which order

    fragments   b: M x y   a: N   a: M y z     in the order of the load
    models      M: x y z from b, a    N        in the order of first occurrence

Merging takes the fragments one after the other, so after any number of them the models are made of
just these: their names, fields and packages stand in the order in which they occurred first, and the
first declaration of a field is the one that counts.

* `collect_mergeFragments` — the models of fragments.
* `merge_collects` — the models of a program.
-/

namespace ModelPool

/-- One more entry stands at the end of the distinct ones, unless it is among them. -/
theorem eraseDups_concat {α : Type} [DecidableEq α] (l : List α) (a : α) :
    (l ++ [a]).eraseDups = if a ∈ l then l.eraseDups else l.eraseDups ++ [a] := by
  rw [List.eraseDups_append]
  split
  · next h => simp [List.removeAll, h]
  · next h => simp [List.removeAll, h, List.eraseDups_cons]

/-- No entry is left twice. -/
theorem nodup_eraseDups {α : Type} [DecidableEq α] (l : List α) : l.eraseDups.Nodup := by
  induction l using List.reverseRecOn with
  | nil => exact List.nodup_nil
  | append_singleton l a ih =>
    rw [eraseDups_concat]
    split
    · exact ih
    · next ha =>
      rw [← List.concat_eq_append]
      exact ih.concat (mt List.mem_eraseDups.1 ha)

/-- One more part goes behind a separator. -/
theorem intercalate_concat {α : Type} {between : List α} {parts : List (List α)} {part : List α}
    (h : parts ≠ []) : between.intercalate (parts ++ [part]) =
      between.intercalate parts ++ (between ++ part) := by
  induction parts with
  | nil => exact absurd rfl h
  | cons a r ih =>
    cases r with
    | nil => simp
    | cons b r =>
      have hr := ih (by simp)
      rw [List.cons_append] at hr
      rw [List.cons_append, List.cons_append, List.intercalate_cons_cons,
        List.intercalate_cons_cons, hr]
      simp only [List.append_assoc]

/-- One more entry that passes is found only where none was found before it. -/
theorem find?_concat_of_eq_some {α : Type} {q : α → Bool} {l : List α} {a b : α}
    (h : l.find? q = some a) : (l ++ [b]).find? q = some a := by
  simp [List.find?_append, h]

/-! ## Fields -/

/-- A field that a package declares. -/
def ResolvedField.declaredBy (package : String) (x : ResolvedField) : MergedField :=
  ⟨x.name, x.type, x.docs, package⟩

/-- **The fields that fragments declare**, each as if it were declared first. -/
def declaredFields (fs : List (String × ModelFragment)) : List MergedField :=
  fs.flatMap fun f => f.2.fields.map (ResolvedField.declaredBy f.1)

/-- **Fields in the order of their first declarations**, and just as declared there. -/
structure FirstOf (declared fields : List MergedField) : Prop where
  names : fields.map MergedField.name = (declared.map MergedField.name).eraseDups
  first : ∀ x ∈ fields, declared.find? (·.name == x.name) = some x

namespace MergedModel

variable {m m' : MergedModel}

/-- What more declarations of fields leave as it is. -/
structure SameButFields (m m' : MergedModel) : Prop where
  name : m'.name = m.name
  docs : m'.docs = m.docs
  packages : m'.packages = m.packages

theorem SameButFields.refl (m : MergedModel) : SameButFields m m := ⟨rfl, rfl, rfl⟩

theorem SameButFields.trans {m'' : MergedModel} (h : SameButFields m m')
    (h' : SameButFields m' m'') : SameButFields m m'' :=
  ⟨h'.name.trans h.name, h'.docs.trans h.docs, h'.packages.trans h.packages⟩

/-- **One more declaration** counts only where the field is new. -/
theorem firstOf_addField {package : String} {x : ResolvedField} {declared : List MergedField}
    (hm : FirstOf declared m.fields) (h : addField package m x = .ok m') :
    SameButFields m m' ∧ FirstOf (declared ++ [x.declaredBy package]) m'.fields := by
  have hmem : x.name ∈ declared.map MergedField.name ↔ ∃ y ∈ m.fields, y.name = x.name := by
    rw [← List.mem_eraseDups, ← hm.names, List.mem_map]
  have hnames : ((declared ++ [x.declaredBy package]).map MergedField.name).eraseDups =
      if x.name ∈ declared.map MergedField.name then m.fields.map MergedField.name
      else m.fields.map MergedField.name ++ [x.name] := by
    rw [List.map_append, List.map_singleton, eraseDups_concat, ← hm.names]
    rfl
  unfold addField at h
  cases hknown : m.field? x.name with
  | some known =>
    rw [hknown] at h
    have hold : x.name ∈ declared.map MergedField.name :=
      hmem.2 ⟨known, List.mem_of_find?_eq_some hknown, by simpa using List.find?_some hknown⟩
    dsimp only at h
    split at h
    · obtain rfl := Except.ok.inj h
      refine ⟨.refl m, ?_, fun y hy => find?_concat_of_eq_some (hm.first y hy)⟩
      rw [hnames, if_pos hold]
    · simp at h
  | none =>
    rw [hknown] at h
    obtain rfl := Except.ok.inj h
    have hnew : x.name ∉ declared.map MergedField.name := by
      rw [hmem]
      rintro ⟨y, hy, hname⟩
      exact field?_eq_none_iff.1 hknown y hy hname
    refine ⟨⟨rfl, rfl, rfl⟩, ?_, fun y hy => ?_⟩
    · rw [hnames, if_neg hnew, List.map_append]
      rfl
    · rcases List.mem_append.1 hy with hy | hy
      · exact find?_concat_of_eq_some (hm.first y hy)
      · obtain rfl := List.mem_singleton.1 hy
        have hnone : declared.find? (·.name == x.name) = none := by
          rw [List.find?_eq_none]
          intro y hy hname
          exact hnew (List.mem_map.2 ⟨y, hy, by simpa using hname⟩)
        simp [List.find?_append, hnone, ResolvedField.declaredBy]

theorem firstOf_addFields {package : String} {xs : List ResolvedField} {declared : List MergedField}
    (hm : FirstOf declared m.fields) (h : xs.foldlM (addField package) m = .ok m') :
    SameButFields m m' ∧ FirstOf (declared ++ xs.map (ResolvedField.declaredBy package)) m'.fields := by
  induction xs generalizing m declared with
  | nil =>
    obtain rfl := Except.ok.inj h
    exact ⟨.refl m, by simpa using hm⟩
  | cons x r ih =>
    rw [List.foldlM_cons] at h
    obtain ⟨m₁, hm₁, hr⟩ := bind_eq_ok_iff.1 h
    obtain ⟨hsame, hfirst⟩ := firstOf_addField hm hm₁
    obtain ⟨hsame', hfirst'⟩ := ih hfirst hr
    exact ⟨hsame.trans hsame', by simpa using hfirst'⟩

/-! ## One model -/

/-- The documentation of several parts: those that have some, with an empty line in between. -/
def jointDocs (parts : List (List String)) : List String :=
  [""].intercalate (parts.filter (!·.isEmpty))

/-- One more part goes behind the others. -/
theorem joinDocs_jointDocs (parts : List (List String)) (part : List String) :
    joinDocs (jointDocs parts) part = jointDocs (parts ++ [part]) := by
  have hempty : (jointDocs parts).isEmpty = (parts.filter (!·.isEmpty)).isEmpty := by
    unfold jointDocs
    cases hparts : parts.filter (!·.isEmpty) with
    | nil => rfl
    | cons a r =>
      have ha : a ≠ [] := by
        have hmem : a ∈ parts.filter (!·.isEmpty) := hparts ▸ List.mem_cons_self
        simpa using (List.mem_filter.1 hmem).2
      cases r <;> simp [List.intercalate, ha]
  unfold joinDocs
  split
  · next hpart => simp [jointDocs, hpart]
  · next hpart =>
    have hfilter : (parts ++ [part]).filter (!·.isEmpty) =
        parts.filter (!·.isEmpty) ++ [part] := by
      simp [hpart]
    split
    · next hnone =>
      have hnil : parts.filter (!·.isEmpty) = [] := by simpa [hempty] using hnone
      rw [jointDocs, hfilter, hnil]
      simp
    · next hsome =>
      have hne : parts.filter (!·.isEmpty) ≠ [] := by simpa [hempty] using hsome
      rw [jointDocs, jointDocs, hfilter, intercalate_concat hne]
      rfl

/-- **A model is made of fragments**: of their documentation, packages and fields in order. -/
structure Collects (m : MergedModel) (fs : List (String × ModelFragment)) : Prop where
  docs : m.docs = jointDocs (fs.map fun f => f.2.docs)
  packages : m.packages = (fs.map Prod.fst).eraseDups
  fields : FirstOf (declaredFields fs) m.fields

theorem collects_empty (name : String) : (empty name).Collects [] :=
  ⟨rfl, rfl, rfl, fun _ hx => absurd hx List.not_mem_nil⟩

/-- **One more fragment** goes behind those that a model is made of. -/
theorem collects_add {package : String} {f : ModelFragment} {fs : List (String × ModelFragment)}
    (hm : m.Collects fs) (h : m.add package f = .ok m') :
    m'.name = m.name ∧ m'.Collects (fs ++ [(package, f)]) := by
  have hpackage : ∀ n : MergedModel, (addPackage package n).packages =
      if package ∈ n.packages then n.packages else n.packages ++ [package] := by
    intro n
    simp only [addPackage, List.contains_iff_mem]
    split <;> rfl
  have hrest : ∀ n : MergedModel, (addPackage package n).name = n.name ∧
      (addPackage package n).docs = n.docs ∧ (addPackage package n).fields = n.fields := by
    intro n
    unfold addPackage
    split <;> exact ⟨rfl, rfl, rfl⟩
  obtain ⟨hname, hdocs, hfields⟩ := hrest { m with docs := joinDocs m.docs f.docs }
  obtain ⟨hsame, hfirst⟩ := firstOf_addFields (hfields.symm ▸ hm.fields) h
  refine ⟨hsame.name.trans hname, ?_, ?_, ?_⟩
  · rw [hsame.docs, hdocs, List.map_append, List.map_singleton, ← joinDocs_jointDocs, ← hm.docs]
  · rw [hsame.packages, hpackage, List.map_append, List.map_singleton, eraseDups_concat,
      ← hm.packages]
    simp only [hm.packages, List.mem_eraseDups]
  · simpa [declaredFields] using hfirst

end MergedModel

/-! ## All models -/

/-- **A fragment goes to the first model of its name**, or begins a model behind the others. -/
theorem addFragment_cases {package : String} {f : ModelFragment} {ms ms' : List MergedModel}
    (h : addFragment package f ms = .ok ms') :
    (∃ before m after m', ms = before ++ m :: after ∧ m.name = f.name ∧
      (∀ x ∈ before, x.name ≠ f.name) ∧ m.add package f = .ok m' ∧
      ms' = before ++ m' :: after) ∨
    ((∀ m ∈ ms, m.name ≠ f.name) ∧
      ∃ m', (MergedModel.empty f.name).add package f = .ok m' ∧ ms' = ms ++ [m']) := by
  induction ms generalizing ms' with
  | nil =>
    obtain ⟨m', hm', heq⟩ := bind_eq_ok_iff.1 h
    obtain rfl := Except.ok.inj heq
    exact .inr ⟨fun m hm => absurd hm List.not_mem_nil, m', hm', rfl⟩
  | cons m r ih =>
    unfold addFragment at h
    split at h
    · next hname =>
      obtain ⟨m', hm', heq⟩ := bind_eq_ok_iff.1 h
      obtain rfl := Except.ok.inj heq
      exact .inl ⟨[], m, r, m', rfl, hname, fun x hx => absurd hx List.not_mem_nil, hm', rfl⟩
    · next hname =>
      obtain ⟨r', hr', heq⟩ := bind_eq_ok_iff.1 h
      obtain rfl := Except.ok.inj heq
      rcases ih hr' with ⟨before, n, after, n', rfl, hn, hbefore, hadd, rfl⟩ | ⟨hnone, n', hadd, rfl⟩
      · exact .inl ⟨m :: before, n, after, n', rfl, hn, List.forall_mem_cons.2 ⟨hname, hbefore⟩, hadd,
          rfl⟩
      · exact .inr ⟨List.forall_mem_cons.2 ⟨hname, hnone⟩, n', hadd, rfl⟩

/-- **Models are made of fragments**: one model for each name, in the order of first occurrence, made
of the fragments with the name. -/
structure Collect (ms : List MergedModel) (fs : List (String × ModelFragment)) : Prop where
  names : ms.map MergedModel.name = (fs.map fun f => f.2.name).eraseDups
  each : ∀ m ∈ ms, m.Collects (fs.filter (·.2.name == m.name))

namespace Collect

variable {ms ms' : List MergedModel} {fs : List (String × ModelFragment)} {package : String}
  {f : ModelFragment}

/-- A model keeps what it is made of when the next fragment has another name. -/
theorem each_concat (h : Collect ms fs) {m : MergedModel} (hm : m ∈ ms) (hne : m.name ≠ f.name) :
    m.Collects ((fs ++ [(package, f)]).filter (·.2.name == m.name)) := by
  have hother : (f.name == m.name) = false := by simpa using hne.symm
  simpa [hother] using h.each m hm

/-- The names of the models with one more fragment. -/
theorem names_concat (h : Collect ms fs) (package : String) (f : ModelFragment) :
    ((fs ++ [(package, f)]).map fun g => g.2.name).eraseDups =
      if f.name ∈ ms.map MergedModel.name then ms.map MergedModel.name
      else ms.map MergedModel.name ++ [f.name] := by
  have hmem : f.name ∈ fs.map (fun g => g.2.name) ↔ f.name ∈ ms.map MergedModel.name := by
    rw [h.names, List.mem_eraseDups]
  rw [List.map_append, List.map_singleton, eraseDups_concat, ← h.names]
  simp only [hmem]

/-- One of the models takes the next fragment. -/
theorem change {before after : List MergedModel} {m m' : MergedModel}
    (h : Collect (before ++ m :: after) fs) (hname : m.name = f.name)
    (hbefore : ∀ x ∈ before, x.name ≠ f.name) (hadd : m.add package f = .ok m') :
    Collect (before ++ m' :: after) (fs ++ [(package, f)]) := by
  have hnodup : ((before ++ m :: after).map MergedModel.name).Nodup := by
    rw [h.names]
    exact nodup_eraseDups _
  have hafter : ∀ x ∈ after, x.name ≠ f.name := by
    intro x hx heq
    rw [List.map_append, List.map_cons] at hnodup
    have hm := (List.nodup_cons.1 (List.nodup_append.1 hnodup).2.1).1
    exact hm (List.mem_map.2 ⟨x, hx, heq.trans hname.symm⟩)
  obtain ⟨hname', hcollects⟩ := MergedModel.collects_add (h.each m (by simp)) hadd
  refine ⟨?_, fun x hx => ?_⟩
  · rw [h.names_concat, if_pos (List.mem_map.2 ⟨m, by simp, hname⟩)]
    simp [hname']
  · rcases List.mem_append.1 hx with hx | hx
    · exact h.each_concat (List.mem_append_left _ hx) (hbefore x hx)
    rcases List.mem_cons.1 hx with rfl | hx
    · have hself : (fs ++ [(package, f)]).filter (·.2.name == x.name) =
          fs.filter (·.2.name == m.name) ++ [(package, f)] := by
        simp [hname', hname]
      exact hself ▸ hcollects
    · exact h.each_concat (List.mem_append_right _ (List.mem_cons_of_mem _ hx)) (hafter x hx)

/-- A new model takes it, if none of them has its name. -/
theorem append {m' : MergedModel} (h : Collect ms fs) (hnone : ∀ m ∈ ms, m.name ≠ f.name)
    (hadd : (MergedModel.empty f.name).add package f = .ok m') :
    Collect (ms ++ [m']) (fs ++ [(package, f)]) := by
  have hnew : f.name ∉ ms.map MergedModel.name := by
    intro hold
    obtain ⟨m, hm, hname⟩ := List.mem_map.1 hold
    exact hnone m hm hname
  have hfs : fs.filter (·.2.name == f.name) = [] := by
    rw [List.filter_eq_nil_iff]
    intro g hg hname
    refine hnew ?_
    rw [h.names, List.mem_eraseDups]
    exact List.mem_map.2 ⟨g, hg, by simpa using hname⟩
  obtain ⟨hname', hcollects⟩ := MergedModel.collects_add (MergedModel.collects_empty f.name) hadd
  refine ⟨?_, fun x hx => ?_⟩
  · rw [h.names_concat, if_neg hnew, List.map_append, List.map_singleton, hname']
    rfl
  · rcases List.mem_append.1 hx with hx | hx
    · exact h.each_concat hx (hnone x hx)
    · obtain rfl := List.mem_singleton.1 hx
      have hself : (fs ++ [(package, f)]).filter (·.2.name == x.name) = [] ++ [(package, f)] := by
        rw [hname', List.filter_append]
        simp [MergedModel.empty, hfs]
      exact hself ▸ hcollects

/-- **One more fragment.** -/
theorem addFragment (h : Collect ms fs) (hadd : ModelPool.addFragment package f ms = .ok ms') :
    Collect ms' (fs ++ [(package, f)]) := by
  rcases addFragment_cases hadd with
    ⟨before, m, after, m', rfl, hname, hbefore, hm', rfl⟩ | ⟨hnone, m', hm', rfl⟩
  · exact h.change hname hbefore hm'
  · exact h.append hnone hm'

/-- **And so on for all fragments.** -/
theorem mergeFragments {gs : List (String × ModelFragment)} (h : Collect ms fs)
    (hmerge : gs.foldlM mergeFragment ms = .ok ms') : Collect ms' (fs ++ gs) := by
  induction gs generalizing ms fs with
  | nil =>
    obtain rfl := Except.ok.inj hmerge
    simpa using h
  | cons g r ih =>
    rw [List.foldlM_cons] at hmerge
    obtain ⟨ms₁, hms₁, hr⟩ := bind_eq_ok_iff.1 hmerge
    obtain ⟨_, -, hadd⟩ := bind_eq_ok_iff.1 hms₁
    simpa using ih (h.addFragment hadd) hr

end Collect

/-- **What models are made of.** -/
theorem collect_mergeFragments {fs : List (String × ModelFragment)} {ms : List MergedModel}
    (h : mergeFragments fs = .ok ms) : Collect ms fs := by
  have hnil : Collect [] [] := ⟨rfl, fun m hm => absurd hm List.not_mem_nil⟩
  simpa using hnil.mergeFragments h

/-! ## The models of a program -/

/-- A model struct where it stands. -/
structure ModelStruct where
  package : String
  file : SourceFile
  item : Item

/-- **The fields that a model struct declares**, with the types that they have in a load. -/
def ModelStruct.fields (t : FileTree) (roots : SourceRoots) (imports : ImportSet) (x : ModelStruct) :
    List MergedField :=
  x.item.structFields.withNames.map fun y =>
    ⟨y.name, y.type.map ((Program.fileCheck t roots imports x.package x.file).target x.item.generics),
      y.docs, x.package⟩

namespace Program

/-- **The model structs of a program** outside the pool: package by package, in each of them file by
file, and in each of these from its first item to its last. -/
def modelStructs (p : Program) (pool : String) : List ModelStruct :=
  (p.packages.filter (·.importPath != pool)).flatMap fun a =>
    a.files.flatMap fun f => f.unit.models.map (ModelStruct.mk a.importPath f)

/-- The model structs with a name. -/
def structsOf (p : Program) (pool name : String) : List ModelStruct :=
  (p.modelStructs pool).filter (·.item.name == name)

variable {t : FileTree} {roots : SourceRoots} {imports : ImportSet} {mode : LoadMode} {p : Program}
  {pool : String} {models : List MergedModel}

/-- The fragment that a model struct is. -/
def fragmentOf (t : FileTree) (roots : SourceRoots) (imports : ImportSet) (x : ModelStruct) :
    String × ModelFragment :=
  (x.package, (fileCheck t roots imports x.package x.file).fragment x.item)

/-- **What is put together** are the model structs in their order. -/
theorem contributions_eq (h : load t roots imports mode = .ok p) :
    p.contributions pool = (p.modelStructs pool).map (fragmentOf t roots imports) := by
  have hmodels : ∀ a ∈ p.packages, a.models =
      a.files.flatMap fun f => f.unit.models.map (fileCheck t roots imports a.importPath f).fragment := by
    intro a ha
    rw [packages_of_load h] at ha
    obtain ⟨x, -, rfl⟩ := List.mem_map.1 ha
    exact SourceFile.value_checkAll _ _ _
  unfold contributions fragments modelStructs
  generalize p.packages = packages at hmodels ⊢
  induction packages with
  | nil => rfl
  | cons a r ih =>
    obtain ⟨ha, hr⟩ := List.forall_mem_cons.1 hmodels
    have hown : (a.models.map (a, ·)).map (fun x => (x.1.importPath, x.2)) =
        (a.files.flatMap fun f => f.unit.models.map (ModelStruct.mk a.importPath f)).map
          (fragmentOf t roots imports) := by
      rw [ha]
      simp [fragmentOf, List.map_flatMap, Function.comp_def]
    have hpath : ∀ x ∈ (a.models.map (a, ·)).map (fun x => (x.1.importPath, x.2)),
        x.1 = a.importPath := by
      simp only [List.map_map, List.mem_map]
      rintro _ ⟨m, -, rfl⟩
      rfl
    rw [List.flatMap_cons, List.map_append, List.filter_append, ih hr]
    by_cases hpool : a.importPath = pool
    · rw [List.filter_eq_nil_iff.2 fun x hx => by simp [hpath x hx, hpool],
        List.filter_cons_of_neg (by simp [hpool])]
      rfl
    · rw [List.filter_eq_self.2 fun x hx => by simpa [hpath x hx] using hpool,
        List.filter_cons_of_pos (by simpa using hpool), List.flatMap_cons, List.map_append, hown]

theorem declaredFields_map_fragmentOf (xs : List ModelStruct) :
    declaredFields (xs.map (fragmentOf t roots imports)) =
      xs.flatMap (ModelStruct.fields t roots imports) := by
  unfold declaredFields
  rw [List.flatMap_map]
  refine congrArg (fun f => xs.flatMap f) (funext fun x => ?_)
  simp [fragmentOf, FileCheck.fragment, FileCheck.field, ResolvedField.declaredBy, ModelStruct.fields]

/-- **Models are made of all model structs of a program but those of the pool, and of nothing else.**

Packages stand in load order, and the files of each are the source files of its directory in the order
of their names.  The models have the distinct names of the model structs, in the order in which they
occur first.  Each of them has the distinct fields that its structs declare, in the order in which they
are declared first, and with the type, documentation and package of that declaration; its packages are
those that contribute, in order and each once; its documentation is that of its structs, with one empty
line between any two that have some. -/
theorem merge_collects (h : load t roots imports mode = .ok p) (hm : p.merge pool = .ok models) :
    (∀ a ∈ p.packages, ∃ names : List String, names.Pairwise (· < ·) ∧
      t.sourceFiles a.dir = .ok (names.map a.dir.child) ∧
      (names.map a.dir.child).mapM (PackageInfo.readFile t) = .ok a.files) ∧
    models.map MergedModel.name = ((p.modelStructs pool).map (·.item.name)).eraseDups ∧
    ∀ m ∈ models,
      m.fields.map MergedField.name =
        (((p.structsOf pool m.name).flatMap (ModelStruct.fields t roots imports)).map
          MergedField.name).eraseDups ∧
      (∀ x ∈ m.fields, ((p.structsOf pool m.name).flatMap (ModelStruct.fields t roots imports)).find?
        (·.name == x.name) = some x) ∧
      m.packages = ((p.structsOf pool m.name).map ModelStruct.package).eraseDups ∧
      m.docs = [""].intercalate
        (((p.structsOf pool m.name).map (·.item.docs)).filter (!·.isEmpty)) := by
  constructor
  · intro a ha
    obtain ⟨info, hchecked, ⟨dir, -, hread⟩, -⟩ := (mem_packages_iff h).1 ha
    rw [hchecked]
    exact PackageInfo.exists_names_of_read hread
  have hcollect := collect_mergeFragments hm
  rw [contributions_eq h] at hcollect
  refine ⟨?_, fun x hx => ?_⟩
  · rw [hcollect.names, List.map_map]
    rfl
  · have heach := hcollect.each x hx
    have hstructs : ((p.modelStructs pool).map (fragmentOf t roots imports)).filter
        (·.2.name == x.name) = (p.structsOf pool x.name).map (fragmentOf t roots imports) := by
      rw [List.filter_map]
      rfl
    rw [hstructs] at heach
    obtain ⟨hdocs, hpackages, hfields⟩ := heach
    rw [declaredFields_map_fragmentOf] at hfields
    refine ⟨hfields.names, hfields.first, ?_, ?_⟩
    · rw [hpackages, List.map_map]
      rfl
    · rw [hdocs, List.map_map]
      rfl

/-- Two packages with parts of one model, and a model between these parts. -/
def splitTree : FileTree :=
  .ofTexts [(["a", "x.rs"], "use b;\n/// Of a.\n#[model]\npub struct M { pub y: u8, pub z: u8 }"),
    (["b", "x.rs"], "/// Of b.\n#[model]\npub struct M { pub x: u8, pub y: u8 }\n#[model]\nstruct N { }")]

/-- The models of both packages. -/
def splitModels : List MergedModel :=
  [⟨"M", ["Of b.", "", "Of a."], ["b", "a"],
      [⟨"x", .path (.builtin "u8") [], [], "b"⟩, ⟨"y", .path (.builtin "u8") [], [], "b"⟩,
        ⟨"z", .path (.builtin "u8") [], [], "a"⟩]⟩,
    ⟨"N", [], ["b"], []⟩]

/-- The parts of a model are put together across another one. -/
theorem merge_collects_split : ∃ p, load splitTree rootOnly ⟨["a"]⟩ .tolerant = .ok p ∧
    p.merge "pool" = .ok splitModels ∧
    ["M", "N"] = ((p.modelStructs "pool").map (·.item.name)).eraseDups ∧
    ["x", "y", "z"] = (((p.structsOf "pool" "M").flatMap
      (ModelStruct.fields splitTree rootOnly ⟨["a"]⟩)).map MergedField.name).eraseDups ∧
    ["b", "a"] = ((p.structsOf "pool" "M").map ModelStruct.package).eraseDups := by
  obtain ⟨p, hp, hmodels⟩ : ∃ p, load splitTree rootOnly ⟨["a"]⟩ .tolerant = .ok p ∧
      p.merge "pool" = .ok splitModels :=
    exists_load (by simp) (by decide +kernel)
  obtain ⟨-, hnames, heach⟩ := merge_collects hp hmodels
  obtain ⟨hfields, -, hpackages, -⟩ := heach _ List.mem_cons_self
  exact ⟨p, hp, hmodels, hnames, hfields, hpackages⟩

end Program

end ModelPool
