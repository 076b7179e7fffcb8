import ModelPool.Proofs.Check.Routes
import ModelPool.Proofs.Load.Counted
import ModelPool.Proofs.Load.Declared
import ModelPool.Proofs.Pool.Collecting

/-!
# Proofs/Pool/Conflicts — which declarations contradict each other

    a: M x: T           use b::T;          b::T
    c: M x: b::T        (b not bound)      b::T      no conflict
    d: M x: u8                             u8        in conflict with the first

Merging refuses a field that another fragment has declared with another type, and names both.  The types are
compared by their targets, so it takes no notice of the way in which a file names a declared type.

* `contradicts_of_mergeFragments` — the declarations behind a refusal.
* `map_eq_of_writtenAlike` — types that are the same but for the ways to name types.
* `load_names_alike` — naming a type in another way is never a conflict.
-/

namespace ModelPool

/-! ## Refused fields -/

/-- **A declaration of a field contradicts the first one**, which stands before it and has another type. -/
structure Contradicts (declared : List MergedField) (x y : MergedField) : Prop where
  behind : ∃ before after, declared = before ++ y :: after ∧ before.find? (·.name == y.name) = some x
  type : x.type ≠ y.type

/-- The refusal of the second. -/
def conflictOf (model : String) (x y : MergedField) : SynthesisError :=
  .conflictingField model y.name x.type.text x.package y.type.text y.package

namespace Contradicts

variable {declared : List MergedField} {x y : MergedField}

theorem append (h : Contradicts declared x y) (more : List MergedField) :
    Contradicts (declared ++ more) x y := by
  obtain ⟨before, after, rfl, hx⟩ := h.behind
  exact ⟨⟨before, after ++ more, by simp, hx⟩, h.type⟩

theorem mem_first (h : Contradicts declared x y) : x ∈ declared := by
  obtain ⟨before, after, rfl, hx⟩ := h.behind
  exact List.mem_append_left _ (List.mem_of_find?_eq_some hx)

theorem mem_second (h : Contradicts declared x y) : y ∈ declared := by
  obtain ⟨before, after, rfl, -⟩ := h.behind
  exact List.mem_append_right _ List.mem_cons_self

theorem name (h : Contradicts declared x y) : x.name = y.name := by
  obtain ⟨before, after, -, hx⟩ := h.behind
  simpa using List.find?_some hx

end Contradicts

namespace MergedModel

variable {m : MergedModel} {package : String} {e : SynthesisError} {declared : List MergedField}

/-- A field is refused only where it contradicts one of the model, which is the first of its name. -/
theorem conflict_of_addField (hm : FirstOf declared m.fields) {x : ResolvedField}
    (h : addField package m x = .error e) : ∃ known,
      declared.find? (·.name == x.name) = some known ∧ known.type ≠ x.type ∧
        e = conflictOf m.name known (x.declaredBy package) := by
  unfold addField at h
  split at h
  · next known hknown =>
    split at h
    · simp at h
    · next htype =>
      have hname : known.name = x.name := by simpa using List.find?_some hknown
      refine ⟨known, ?_, htype, (Except.error.inj h).symm⟩
      rw [← hname]
      exact hm.first known (List.mem_of_find?_eq_some hknown)
  · simp at h

theorem conflict_of_addFields (hm : FirstOf declared m.fields) {xs : List ResolvedField}
    (h : xs.foldlM (addField package) m = .error e) : ∃ x y,
      Contradicts (declared ++ xs.map (ResolvedField.declaredBy package)) x y ∧
        e = conflictOf m.name x y := by
  induction xs generalizing m declared with
  | nil => exact absurd h (by simp [pure, Except.pure])
  | cons x r ih =>
    rw [List.foldlM_cons] at h
    rcases bind_eq_error_iff.1 h with hfirst | ⟨m₁, hm₁, hrest⟩
    · obtain ⟨known, hknown, htype, he⟩ := conflict_of_addField hm hfirst
      exact ⟨known, _, ⟨⟨declared, _, rfl, hknown⟩, htype⟩, he⟩
    · obtain ⟨hsame, hdeclared⟩ := firstOf_addField hm hm₁
      obtain ⟨known, y, hconflict, he⟩ := ih hdeclared hrest
      exact ⟨known, y, by simpa using hconflict, hsame.name ▸ he⟩

/-- **A fragment is refused only where it contradicts the model** or itself. -/
theorem conflict_of_add {f : ModelFragment} {fs : List (String × ModelFragment)} (hm : m.Collects fs)
    (h : m.add package f = .error e) : ∃ x y,
      Contradicts (declaredFields (fs ++ [(package, f)])) x y ∧ e = conflictOf m.name x y := by
  have hsame : (addPackage package { m with docs := joinDocs m.docs f.docs }).fields = m.fields ∧
      (addPackage package { m with docs := joinDocs m.docs f.docs }).name = m.name := by
    unfold addPackage
    split <;> exact ⟨rfl, rfl⟩
  have hconflict := conflict_of_addFields (hsame.1.symm ▸ hm.fields) h
  rw [hsame.2] at hconflict
  simpa [declaredFields] using hconflict

end MergedModel

/-- It is refused by the model of its name, which is new if there is none. -/
theorem conflict_of_addFragment {package : String} {f : ModelFragment} {ms : List MergedModel}
    {e : SynthesisError} (h : addFragment package f ms = .error e) :
    ∃ m, (m ∈ ms ∨ m = .empty f.name ∧ f.name ∉ ms.map MergedModel.name) ∧ m.name = f.name ∧
      m.add package f = .error e := by
  induction ms with
  | nil =>
    rcases bind_eq_error_iff.1 h with hadd | ⟨m, -, hpure⟩
    · exact ⟨_, .inr ⟨rfl, List.not_mem_nil⟩, rfl, hadd⟩
    · exact absurd hpure (by simp [pure, Except.pure])
  | cons m r ih =>
    unfold addFragment at h
    split at h
    · next hname =>
      rcases bind_eq_error_iff.1 h with hadd | ⟨m', -, hpure⟩
      · exact ⟨m, .inl List.mem_cons_self, hname, hadd⟩
      · exact absurd hpure (by simp [pure, Except.pure])
    · next hname =>
      rcases bind_eq_error_iff.1 h with hadd | ⟨r', -, hpure⟩
      · obtain ⟨n, hn, hsame, hadd⟩ := ih hadd
        refine ⟨n, hn.imp (List.mem_cons_of_mem _) (And.imp_right fun hnew => ?_), hsame, hadd⟩
        rw [List.map_cons, List.mem_cons]
        exact not_or.2 ⟨Ne.symm hname, hnew⟩
      · exact absurd hpure (by simp [pure, Except.pure])

/-- While fragments are merged, a refusal comes from one that is not valid or from a field that contradicts
its first declaration. -/
theorem Collect.conflict_of_foldlM {ms : List MergedModel} {fs gs : List (String × ModelFragment)}
    {e : SynthesisError} (h : Collect ms fs) (hmerge : gs.foldlM mergeFragment ms = .error e) :
    (∃ g ∈ gs, g.2.check g.1 = .error e) ∨ ∃ model x y,
      Contradicts (declaredFields ((fs ++ gs).filter (·.2.name == model))) x y ∧
        e = conflictOf model x y := by
  induction gs generalizing ms fs with
  | nil => exact absurd hmerge (by simp [pure, Except.pure])
  | cons g r ih =>
    rw [List.foldlM_cons] at hmerge
    rcases bind_eq_error_iff.1 hmerge with hfirst | ⟨ms₁, hms₁, hrest⟩
    · rcases bind_eq_error_iff.1 hfirst with hcheck | ⟨_, -, hadd⟩
      · exact .inl ⟨g, List.mem_cons_self, hcheck⟩
      · obtain ⟨m, hm, hname, hadd⟩ := conflict_of_addFragment hadd
        have hcollects : m.Collects (fs.filter (·.2.name == m.name)) := by
          rcases hm with hm | ⟨rfl, hnew⟩
          · exact h.each m hm
          · have hnone : fs.filter (·.2.name == g.2.name) = [] := by
              rw [h.names, List.mem_eraseDups, List.mem_map] at hnew
              exact List.filter_eq_nil_iff.2 fun f hf hf' => hnew ⟨f, hf, by simpa using hf'⟩
            exact hname ▸ hnone ▸ MergedModel.collects_empty g.2.name
        obtain ⟨x, y, hconflict, he⟩ := MergedModel.conflict_of_add hcollects hadd
        refine .inr ⟨m.name, x, y, ?_, he⟩
        have hmore := hconflict.append (declaredFields (r.filter (·.2.name == m.name)))
        simpa [declaredFields, hname] using hmore
    · obtain ⟨_, -, hadd⟩ := bind_eq_ok_iff.1 hms₁
      rcases ih (h.addFragment hadd) hrest with ⟨z, hz, hcheck⟩ | hconflict
      · exact .inl ⟨z, List.mem_cons_of_mem _ hz, hcheck⟩
      · exact .inr (by simpa using hconflict)

/-- **The declarations behind a refusal**: the first of a field in the fragments with the name of the model,
and one behind it that has another type. -/
theorem contradicts_of_mergeFragments {fs : List (String × ModelFragment)}
    {model field first firstPackage second secondPackage : String}
    (h : mergeFragments fs =
      .error (.conflictingField model field first firstPackage second secondPackage)) :
    ∃ x y, Contradicts (declaredFields (fs.filter (·.2.name == model))) x y ∧ y.name = field ∧
      x.type.text = first ∧ x.package = firstPackage ∧ y.type.text = second ∧
        y.package = secondPackage := by
  have hnil : Collect [] [] := ⟨rfl, fun m hm => absurd hm List.not_mem_nil⟩
  rcases hnil.conflict_of_foldlM h with ⟨g, -, hcheck⟩ | ⟨name, x, y, hconflict, he⟩
  · unfold ModelFragment.check at hcheck
    split at hcheck
    · simp at hcheck
    · split at hcheck <;> simp at hcheck
  · rw [conflictOf, SynthesisError.conflictingField.injEq] at he
    obtain ⟨rfl, rfl, rfl, rfl, rfl, rfl⟩ := he
    exact ⟨x, y, hconflict, rfl, rfl, rfl, rfl, rfl⟩

/-- Both are fields of fragments with the name of the model. -/
theorem conflict_of_mergeFragments {fs : List (String × ModelFragment)}
    {model field first firstPackage second secondPackage : String}
    (h : mergeFragments fs =
      .error (.conflictingField model field first firstPackage second secondPackage)) :
    ∃ x ∈ declaredFields (fs.filter (·.2.name == model)),
      ∃ y ∈ declaredFields (fs.filter (·.2.name == model)), x.name = field ∧ y.name = field ∧
        x.package = firstPackage ∧ y.package = secondPackage ∧ x.type ≠ y.type := by
  obtain ⟨x, y, hconflict, hname, -, hfirst, -, hsecond⟩ := contradicts_of_mergeFragments h
  exact ⟨x, hconflict.mem_first, y, hconflict.mem_second, hconflict.name.trans hname, hname, hfirst,
    hsecond, hconflict.type⟩

/-! ## Types that are written alike -/

namespace Program

variable {t : FileTree} {roots : SourceRoots} {imports : ImportSet} {mode : LoadMode} {p : Program}
  {pool : String}

/-- What a loaded package declares as a type is declared for the checker. -/
theorem declaresType_of_program (h : load t roots imports mode = .ok p) {owner name : String}
    (hd : p.DeclaresType owner name) :
    (surroundingsOf t roots imports).declaresType owner name = true ∧
      (roots.find? t owner).isSome = true := by
  obtain ⟨a, ha, rfl, f, hf, i, hi, htype, hname⟩ := hd
  rw [packages_of_load h] at ha
  obtain ⟨x, hx, rfl⟩ := List.mem_map.1 ha
  obtain ⟨⟨dir, hdir, -⟩, -⟩ := mem_loaded_iff.1 hx
  have hlookup : (surroundingsOf t roots imports).declarations? x.1 = some (.ofFiles x.2.files) := by
    change ((walkOf t roots imports).loaded.lookup x.1).map _ = _
    rw [lookup_loaded_iff.2 hx]
    rfl
  refine ⟨?_, by rw [checked, hdir]; rfl⟩
  change (surroundingsOf t roots imports).declaresType x.1 name = true
  rw [Surroundings.declaresType, hlookup]
  exact Declarations.hasType_ofItems.2 ⟨i, List.mem_flatMap.2 ⟨f, hf, hi⟩, htype, hname⟩

/-- **A path names a type** in a file, in one of the ways to name it. -/
structure NamesType (t : FileTree) (roots : SourceRoots) (imports : ImportSet) (p : Program)
    (package : String) (f : SourceFile) (generics path : List String) (owner name : String) : Prop where
  declares : p.DeclaresType owner name
  not_generic : ∀ first, path.head? = some first → first ≠ "Self" ∧ first ∉ generics
  names : Names t roots (surroundingsOf t roots imports) package f path owner name

/-- **What a path names** is what it is resolved to, without a problem. -/
theorem NamesType.resolvePath_eq (h : load t roots imports mode = .ok p) {package : String} {f : SourceFile}
    {generics path : List String} {owner name : String}
    (hn : NamesType t roots imports p package f generics path owner name) :
    (fileCheck t roots imports package f).scope.resolvePath (surroundingsOf t roots imports) generics
      path = (.declared owner name, []) := by
  obtain ⟨hdeclares, hfound⟩ := declaresType_of_program h hn.declares
  exact resolvePath_of_names rfl hfound hdeclares hn.not_generic hn.names

/-- **Two types of model structs are written alike**: they are the same but for their paths, and two paths
in one place name one type or else stand for the same. -/
def WrittenAlike (t : FileTree) (roots : SourceRoots) (imports : ImportSet) (p : Program)
    (x y : ModelStruct) (type type' : TypeExpr) : Prop :=
  ∃ both : Ty (List String × List String), both.map Prod.fst = type ∧ both.map Prod.snd = type' ∧
    ∀ paths ∈ both.names,
      (∃ owner name, NamesType t roots imports p x.package x.file x.item.generics paths.1 owner name ∧
        NamesType t roots imports p y.package y.file y.item.generics paths.2 owner name) ∨
      (fileCheck t roots imports x.package x.file).target x.item.generics paths.1 =
        (fileCheck t roots imports y.package y.file).target y.item.generics paths.2

/-- **Types that are written alike are resolved to one type.** -/
theorem map_eq_of_writtenAlike (h : load t roots imports mode = .ok p) {x y : ModelStruct}
    {type type' : TypeExpr} (halike : WrittenAlike t roots imports p x y type type') :
    type.map ((fileCheck t roots imports x.package x.file).target x.item.generics) =
      type'.map ((fileCheck t roots imports y.package y.file).target y.item.generics) := by
  obtain ⟨both, rfl, rfl, hboth⟩ := halike
  rw [Ty.map_map, Ty.map_map, Ty.map_eq_map_iff]
  intro paths hpaths
  rcases hboth paths hpaths with ⟨owner, name, hfirst, hsecond⟩ | hsame
  · change ((fileCheck t roots imports x.package x.file).scope.resolvePath _ _ _).1 =
      ((fileCheck t roots imports y.package y.file).scope.resolvePath _ _ _).1
    exact congrArg Prod.fst ((hfirst.resolvePath_eq h).trans (hsecond.resolvePath_eq h).symm)
  · exact hsame

/-- The structs whose fields are merged are those of the program. -/
theorem filter_contributions (h : load t roots imports mode = .ok p) (model : String) :
    (p.contributions pool).filter (·.2.name == model) =
      (p.structsOf pool model).map (fragmentOf t roots imports) := by
  rw [contributions_eq h, List.filter_map]
  rfl

/-- **How a type is named makes no difference.**

Every path of a loaded file that names a type of a loaded package stands for it, without a problem: by its
name in a file of the package, by the name that an import of it binds, behind the name that an import of the
package binds, behind the path of the package, or by its name where a glob lends it.  So where merging
refuses a field, the two model structs that it names declare the field with types that are not written
alike. -/
theorem load_names_alike (h : load t roots imports mode = .ok p) :
    (∀ a ∈ p.packages, ∀ f ∈ a.files, ∀ generics path owner name,
      NamesType t roots imports p a.importPath f generics path owner name →
        (fileCheck t roots imports a.importPath f).scope.resolvePath (surroundingsOf t roots imports)
          generics path = (.declared owner name, [])) ∧
    ∀ pool model field first firstPackage second secondPackage,
      p.merge pool =
        .error (.conflictingField model field first firstPackage second secondPackage) →
      ∃ x ∈ p.structsOf pool model, ∃ y ∈ p.structsOf pool model,
        x.package = firstPackage ∧ y.package = secondPackage ∧
        ∃ v ∈ x.item.structFields.withNames, ∃ w ∈ y.item.structFields.withNames,
          v.name = field ∧ w.name = field ∧ ¬ WrittenAlike t roots imports p x y v.type w.type := by
  refine ⟨fun a _ f _ generics path owner name hn => hn.resolvePath_eq h, ?_⟩
  intro pool model field first firstPackage second secondPackage hmerge
  obtain ⟨v, hv, w, hw, hvname, hwname, hvpackage, hwpackage, htype⟩ :=
    conflict_of_mergeFragments hmerge
  rw [filter_contributions h, declaredFields_map_fragmentOf] at hv hw
  obtain ⟨x, hx, hv⟩ := List.mem_flatMap.1 hv
  obtain ⟨y, hy, hw⟩ := List.mem_flatMap.1 hw
  obtain ⟨v, hv', rfl⟩ := List.mem_map.1 hv
  obtain ⟨w, hw', rfl⟩ := List.mem_map.1 hw
  exact ⟨x, hx, y, hy, hvpackage, hwpackage, v, hv', w, hw', hvname, hwname,
    fun halike => htype (map_eq_of_writtenAlike h halike)⟩

/-! ## A type behind its package -/

/-- A model with a field of a type that another package declares. -/
def behindTree : FileTree :=
  .ofTexts [(["a", "x.rs"], "use b::c;\n#[model]\npub struct M { pub x: c::T }"),
    (["b", "c", "x.rs"], "pub struct T;")]

/-- The entry of the package. -/
def behindEntry : UseEntry := ⟨["b", "c"], none, false, 1⟩

theorem exists_behind_program : ∃ p, load behindTree rootOnly ⟨["a"]⟩ .tolerant = .ok p ∧
    p.DeclaresType "b::c" "T" ∧ ∃ a ∈ p.packages, a.importPath = "a" ∧ ∃ f ∈ a.files,
      f.unit.uses = [behindEntry] ∧
        (surroundingsOf behindTree rootOnly ⟨["a"]⟩).declares "a" "c" = false := by
  refine exists_load (by simp) ?_
  unfold DeclaresType Package.DeclaresType
  rw [surroundingsOf_counted]
  decide +kernel

/-- The field stands for the type, by the name that the import binds. -/
theorem load_names_alike_behind : ∃ p, load behindTree rootOnly ⟨["a"]⟩ .tolerant = .ok p ∧
    ∃ a ∈ p.packages, a.importPath = "a" ∧ ∃ f ∈ a.files,
      (fileCheck behindTree rootOnly ⟨["a"]⟩ a.importPath f).scope.resolvePath
        (surroundingsOf behindTree rootOnly ⟨["a"]⟩) [] ["c", "T"] = (.declared "b::c" "T", []) := by
  obtain ⟨p, hp, hdeclares, a, ha, hpath, f, hf, huses, hfree⟩ := exists_behind_program
  have hwritten : IsPackagePath "b::c" ["b", "c"] := ⟨rfl, "b", rfl, by decide, by decide⟩
  have hloaded : (rootOnly.find? behindTree "b::c").isSome = true :=
    (declaresType_of_program hp hdeclares).2
  have hclassify : (surroundingsOf behindTree rootOnly ⟨["a"]⟩).classify behindEntry = .package "b::c" := by
    have htarget := SourceRoots.classify_package (u := behindEntry) hwritten hloaded rfl
    rw [if_neg (by decide)] at htarget
    simpa only [surroundingsOf, surroundings] using htarget
  have hbinds : Scope.Binds (surroundingsOf behindTree rootOnly ⟨["a"]⟩) behindEntry "c"
      (.package "b::c") := by
    refine ⟨rfl, by decide, fun owner hglob => ?_, ?_⟩
    · rw [hclassify] at hglob
      simp at hglob
    · rw [hclassify]
      rfl
  have hbound : Scope.BindsFreely (surroundingsOf behindTree rootOnly ⟨["a"]⟩) a.importPath f
      behindEntry "c" := by
    refine ⟨hpath.symm ▸ hfree, .package "b::c", ?_⟩
    rw [huses]
    exact .here hbinds
  have hnames : NamesType behindTree rootOnly ⟨["a"]⟩ p a.importPath f [] ["c", "T"] "b::c" "T" := by
    refine ⟨hdeclares, fun first hfirst => ?_, .package hbound hwritten rfl (by decide)⟩
    obtain rfl := Option.some.inj hfirst
    exact ⟨by decide, List.not_mem_nil⟩
  exact ⟨p, hp, a, ha, hpath, f, hf, (load_names_alike hp).1 a ha f hf [] _ _ _ hnames⟩

end Program

end ModelPool
