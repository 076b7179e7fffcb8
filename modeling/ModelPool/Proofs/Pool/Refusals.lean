import ModelPool.Proofs.Load.Counted
import ModelPool.Proofs.Load.Kinds
import ModelPool.Proofs.Pool.Aliases
import ModelPool.Proofs.Pool.Conflicts
import ModelPool.Proofs.Pool.Ordering
import ModelPool.Proofs.Source.AliasReading

/-!
# Proofs/Pool/Refusals — types that are refused although they print alike

    std::c: M x: T            the type T of std::c        std::c::T
    a:      M x: std::c::T    a path of the library       std::c::T      refused

Merging compares the types of a field by what their paths stand for, and names them by their texts.  The text
of a type does not tell for what kind of thing a path stands, but it tells everything else: readable types that
print alike have the same shape and the same paths.  So a refusal names one text twice only where a path stands
for one kind of thing in the first declaration and for another in the second; in a strict program this takes a
package whose path begins as those of the library do.

* `ResolvedType.text_eq_iff` — which types print alike.
* `ResolvedType.isMixed_of_text_eq` — what tells such types apart.
* `tellsTypesApart_of_strict` — programs in which no types print alike.
* `merge_refuses` — the declarations behind a refusal, and those that are kept.
-/

namespace ModelPool

/-! ## Targets that print alike -/

namespace TypeTarget

/-- The segments of a target's text. -/
def segments (target : TypeTarget) : List String := (splitColons target.text.toList).map String.ofList

/-- The names of a target have no colons. -/
def IsPlain : TypeTarget → Prop
  | builtin _ => True
  | generic _ => True
  | declared _ name => ':' ∉ name.toList
  | external path => path ≠ [] ∧ ∀ s ∈ path, ':' ∉ s.toList
  | unresolved path => path ≠ [] ∧ ∀ s ∈ path, ':' ∉ s.toList

theorem pathText_segments (target : TypeTarget) : pathText target.segments = target.text :=
  pathText_splitColons target.text

theorem segments_eq_iff {a b : TypeTarget} : a.segments = b.segments ↔ a.text = b.text := by
  refine ⟨fun h => ?_, fun h => by rw [segments, segments, h]⟩
  rw [← pathText_segments a, ← pathText_segments b, h]

end TypeTarget

/-- A path without colons in its segments is known by its text. -/
theorem eq_of_pathText_eq {path path' : List String} (hne : path ≠ []) (hne' : path' ≠ [])
    (h : ∀ s ∈ path, ':' ∉ s.toList) (h' : ∀ s ∈ path', ':' ∉ s.toList)
    (htext : pathText path = pathText path') : path = path' := by
  obtain ⟨first, r, rfl⟩ := List.exists_cons_of_ne_nil hne
  obtain ⟨first', r', rfl⟩ := List.exists_cons_of_ne_nil hne'
  have hparts := splitColons_pathText h
  rw [htext, splitColons_pathText h'] at hparts
  exact (List.map_injective_iff.2 (fun _ _ => String.toList_inj.1) hparts).symm

/-- So is what a package declares under a name without colons. -/
theorem eq_of_declared_text_eq {package name package' name' : String} (h : ':' ∉ name.toList)
    (h' : ':' ∉ name'.toList) (htext : package ++ "::" ++ name = package' ++ "::" ++ name') :
    package = package' ∧ name = name' := by
  have hlast : ∀ {package name : String}, ':' ∉ name.toList →
      lastSegment (package ++ "::" ++ name) = name := by
    intro package name hname
    have hpath : package ++ "::" ++ name = pathText [package, name] := by
      simp [pathText, String.intercalate_cons_cons]
    rw [hpath]
    exact lastSegment_pathText rfl hname
  obtain rfl : name = name' := by rw [← hlast h, htext, hlast h']
  refine ⟨?_, rfl⟩
  simpa [← String.toList_inj] using htext

namespace TypeTarget

/-- **Targets of one kind that print alike** are one. -/
theorem eq_of_text_eq {a b : TypeTarget} (ha : a.IsPlain) (hb : b.IsPlain) (hkind : a.kind = b.kind)
    (h : a.text = b.text) : a = b := by
  cases a with
  | builtin name => cases b <;> first | exact congrArg builtin h | exact absurd hkind (by simp [kind])
  | generic path => cases b <;> first | exact congrArg generic h | exact absurd hkind (by simp [kind])
  | declared package name =>
    cases b with
    | declared package' name' =>
      obtain ⟨rfl, rfl⟩ := eq_of_declared_text_eq ha hb h
      rfl
    | _ => exact absurd hkind (by simp [kind])
  | external path =>
    cases b with
    | external path' => exact congrArg external (eq_of_pathText_eq ha.1 hb.1 ha.2 hb.2 h)
    | _ => exact absurd hkind (by simp [kind])
  | unresolved path =>
    cases b with
    | unresolved path' => exact congrArg unresolved (eq_of_pathText_eq ha.1 hb.1 ha.2 hb.2 h)
    | _ => exact absurd hkind (by simp [kind])

end TypeTarget

/-! ## Types that print alike -/

namespace ResolvedType

variable {t u : ResolvedType}

/-- **The type expression that a type prints as**: each target is written as the path that its text is. -/
def written (t : ResolvedType) : TypeExpr := t.map TypeTarget.segments

theorem text_written (t : ResolvedType) : (written t).text = text t := by
  rw [TypeExpr.text, written, Ty.render_map, funext TypeTarget.pathText_segments, text]

/-- **Types print alike** exactly if they are one but for what their paths stand for. -/
theorem text_eq_iff (ht : (written t).IsReadable) (hu : (written u).IsReadable) :
    text t = text u ↔ written t = written u := by
  rw [← text_written t, ← text_written u]
  exact ⟨Source.eq_of_text_eq ht hu, congrArg TypeExpr.text⟩

/-- A type whose text is read back, and which has plain targets. -/
structure IsPlain (t : ResolvedType) : Prop where
  readable : (written t).IsReadable
  targets : ∀ target ∈ targets t, target.IsPlain

/-- **Two types mix kinds**: a path stands for one kind of thing in the first, and a path with the same text
for another in the second. -/
def IsMixed (t u : ResolvedType) : Prop :=
  ∃ a ∈ targets t, ∃ b ∈ targets u, a.text = b.text ∧ a.kind ≠ b.kind

/-- **Plain types that print alike** are one or mix kinds. -/
theorem isMixed_of_text_eq (ht : IsPlain t) (hu : IsPlain u) (h : text t = text u) (hne : t ≠ u) :
    IsMixed t u := by
  by_contra hmixed
  refine hne (Ty.eq_of_map_eq ((text_eq_iff ht.readable hu.readable).1 h) fun a ha b hb hsegments => ?_)
  have htext := TypeTarget.segments_eq_iff.1 hsegments
  refine TypeTarget.eq_of_text_eq (ht.targets a ha) (hu.targets b hb) ?_ htext
  by_contra hkind
  exact hmixed ⟨a, ha, b, hb, htext, hkind⟩

end ResolvedType

/-! ## The fields of a program -/

namespace Program

variable {p : Program} {pool model : String}

/-- **The declarations of the fields of a model**, in the order in which they are merged. -/
def declaredIn (p : Program) (pool model : String) : List MergedField :=
  declaredFields ((p.contributions pool).filter (·.2.name == model))

theorem mem_declaredIn {z : MergedField} : z ∈ p.declaredIn pool model ↔
    ∃ a f, p.Contributes pool a f ∧ f.name = model ∧ ∃ x ∈ f.fields, x.declaredBy a.importPath = z := by
  simp only [declaredIn, declaredFields, List.mem_flatMap, List.mem_filter, List.mem_map, beq_iff_eq,
    mem_contributions_iff]
  constructor
  · rintro ⟨⟨_, f⟩, ⟨⟨a, ha, rfl⟩, hname⟩, hx⟩
    exact ⟨a, f, ha, hname, hx⟩
  · rintro ⟨a, f, ha, hname, hx⟩
    exact ⟨(a.importPath, f), ⟨⟨a, ha, rfl⟩, hname⟩, hx⟩

/-- **Texts tell types apart** among the declarations of one field. -/
def TellsTypesApart (p : Program) (pool : String) : Prop :=
  ∀ model, ∀ x ∈ p.declaredIn pool model, ∀ y ∈ p.declaredIn pool model, x.name = y.name →
    x.type.text = y.type.text → x.type = y.type

/-- What stands in a declaration stands in a model of the program. -/
theorem hasTarget_of_mem_declaredIn {z : MergedField} (hz : z ∈ p.declaredIn pool model)
    {target : TypeTarget} (htarget : target ∈ ResolvedType.targets z.type) : p.HasTarget target := by
  obtain ⟨a, f, hf, -, x, hx, rfl⟩ := mem_declaredIn.1 hz
  exact ⟨a, hf.mem, f, hf.fragment, x, hx, htarget⟩

section Load

variable {t : FileTree} {roots : SourceRoots} {imports : ImportSet} {mode : LoadMode}

/-- **The targets of a declaration** are such as paths stand for, in a struct without type parameters. -/
theorem isGrounded_of_mem_declaredIn (h : load t roots imports mode = .ok p)
    (hgenerics : ∀ a f, p.Contributes pool a f → f.generics = []) {z : MergedField}
    (hz : z ∈ p.declaredIn pool model) {target : TypeTarget}
    (htarget : target ∈ ResolvedType.targets z.type) :
    target.IsGrounded (surroundingsOf t roots imports) [] := by
  obtain ⟨a, m, hm, -, x, hx, rfl⟩ := mem_declaredIn.1 hz
  obtain ⟨f, i, -, rfl⟩ :=
    (mem_contributions h).1 (mem_contributions_iff.2 ⟨a, hm, rfl⟩ : (a.importPath, m) ∈ p.contributions pool)
  obtain ⟨y, -, rfl⟩ := List.mem_map.1 hx
  have htypes : target ∈
      Ty.names (y.type.map ((fileCheck t roots imports a.importPath f).target i.generics)) := htarget
  rw [Ty.names_map] at htypes
  obtain ⟨path, -, rfl⟩ := List.mem_map.1 htypes
  have hi : i.generics = [] := hgenerics a _ hm
  rw [hi]
  exact Scope.isGrounded_resolvePath isOrderly_surroundingsOf

/-- **In a strict program texts tell plain types apart** if the models have no type parameters and no package
has a path that begins with `Self` or with a root of the standard library. -/
theorem tellsTypesApart_of_strict (h : load t roots imports .strict = .ok p)
    (hgenerics : ∀ a f, p.Contributes pool a f → f.generics = [])
    (hpackages : ∀ a ∈ p.packages, ∀ word ∈ rootWords, ¬ BeginsWith word a.importPath)
    (hplain : ∀ model, ∀ x ∈ p.declaredIn pool model, ResolvedType.IsPlain x.type) :
    p.TellsTypesApart pool := by
  intro model x hx y hy _ htext
  by_contra hne
  obtain ⟨a, ha, b, hb, hsame, hkind⟩ :=
    ResolvedType.isMixed_of_text_eq (hplain model x hx) (hplain model y hy) htext hne
  obtain ⟨c, hc, word, hword, hbegins⟩ := exists_package_of_text_eq h (hasTarget_of_mem_declaredIn hx ha)
    (hasTarget_of_mem_declaredIn hy hb) (isGrounded_of_mem_declaredIn h hgenerics hx ha)
    (isGrounded_of_mem_declaredIn h hgenerics hy hb) hsame hkind
  exact hpackages c hc word hword hbegins

end Load

/-- The declarations of one field have one type exactly if those of each model agree. -/
theorem mergeable_iff : p.Mergeable pool ↔
    (∀ a f, p.Contributes pool a f → f.generics = [] ∧ f.shape = .named) ∧
      ∀ model, ∀ x ∈ p.declaredIn pool model, ∀ y ∈ p.declaredIn pool model, x.name = y.name →
        x.type = y.type := by
  constructor
  · intro h
    refine ⟨h.each, fun model x hx y hy hname => ?_⟩
    obtain ⟨a, f, hf, rfl, v, hv, rfl⟩ := mem_declaredIn.1 hx
    obtain ⟨b, g, hg, hmodel, w, hw, rfl⟩ := mem_declaredIn.1 hy
    exact h.agree a f b g hf hg hmodel.symm v hv w hw hname
  · rintro ⟨heach, hagree⟩
    refine ⟨heach, fun a f b g hf hg hmodel v hv w hw hname => ?_⟩
    exact hagree f.name _ (mem_declaredIn.2 ⟨a, f, hf, rfl, v, hv, rfl⟩) _
      (mem_declaredIn.2 ⟨b, g, hg, hmodel.symm, w, hw, rfl⟩) hname

/-- **What is kept of the declarations** of a model's fields is the first of each field, and all the others
have its type. -/
theorem kept_of_merge {models : List MergedModel} (h : p.merge pool = .ok models) {m : MergedModel}
    (hm : m ∈ models) : FirstOf (p.declaredIn pool m.name) m.fields ∧
      ∀ y ∈ p.declaredIn pool m.name, ∃ x ∈ m.fields, x.name = y.name ∧ x.type = y.type := by
  have hfields : FirstOf (p.declaredIn pool m.name) m.fields :=
    ((collect_mergeFragments h).each m hm).fields
  refine ⟨hfields, fun y hy => ?_⟩
  have hmem : y.name ∈ m.fields.map MergedField.name := by
    rw [hfields.names, List.mem_eraseDups]
    exact List.mem_map_of_mem hy
  obtain ⟨x, hx, hname⟩ := List.mem_map.1 hmem
  refine ⟨x, hx, hname, ?_⟩
  exact (mergeable_iff.1 (merge_isOk_iff.1 ⟨models, h⟩)).2 m.name x
    (List.mem_of_find?_eq_some (hfields.first x hx)) y hy hname

/-- **Which declarations are refused, and which are kept.**

A field is refused in a declaration behind the first one of the model, which has another type; the refusal
names the texts of the two types and the packages that declare them.  If these types are plain, the texts are
the same only if a path stands for one kind of thing in the first and for another in the second.  Where no
field is refused, each model keeps the first declaration of each field, in this order, and all declarations of
the field have its type.

So where texts tell types apart, a refusal never names one text twice, and the models can be put together
exactly if each fragment is without type parameters and has named fields, and the types of each field print
alike.  This is so in a strict program of plain types without type parameters, if no package has a path that
begins with `Self` or with a root of the standard library. -/
theorem merge_refuses (p : Program) (pool : String) :
    (∀ model field first firstPackage second secondPackage,
      p.merge pool =
        .error (.conflictingField model field first firstPackage second secondPackage) →
      ∃ x y, Contradicts (p.declaredIn pool model) x y ∧ x.name = field ∧ y.name = field ∧
        x.type.text = first ∧ x.package = firstPackage ∧ y.type.text = second ∧
        y.package = secondPackage ∧
        (first = second → ResolvedType.IsPlain x.type → ResolvedType.IsPlain y.type →
          ResolvedType.IsMixed x.type y.type)) ∧
    (∀ models, p.merge pool = .ok models → ∀ m ∈ models,
      FirstOf (p.declaredIn pool m.name) m.fields ∧
        ∀ y ∈ p.declaredIn pool m.name, ∃ x ∈ m.fields, x.name = y.name ∧ x.type = y.type) ∧
    (p.TellsTypesApart pool →
      (∀ model field first firstPackage second secondPackage,
        p.merge pool =
          .error (.conflictingField model field first firstPackage second secondPackage) →
        first ≠ second) ∧
      ((∃ models, p.merge pool = .ok models) ↔
        (∀ a f, p.Contributes pool a f → f.generics = [] ∧ f.shape = .named) ∧
          ∀ model, ∀ x ∈ p.declaredIn pool model, ∀ y ∈ p.declaredIn pool model, x.name = y.name →
            x.type.text = y.type.text)) ∧
    ∀ t roots imports, load t roots imports .strict = .ok p →
      (∀ a f, p.Contributes pool a f → f.generics = []) →
      (∀ a ∈ p.packages, ∀ word ∈ rootWords, ¬ BeginsWith word a.importPath) →
      (∀ model, ∀ x ∈ p.declaredIn pool model, ResolvedType.IsPlain x.type) → p.TellsTypesApart pool := by
  refine ⟨?_, fun models h m hm => kept_of_merge h hm, fun hapart => ⟨?_, ?_⟩,
    fun t roots imports h hgenerics hpackages hplain =>
      tellsTypesApart_of_strict h hgenerics hpackages hplain⟩
  · intro model field first firstPackage second secondPackage h
    obtain ⟨x, y, hconflict, hname, rfl, rfl, rfl, rfl⟩ := contradicts_of_mergeFragments h
    refine ⟨x, y, hconflict, hconflict.name.trans hname, hname, rfl, rfl, rfl, rfl, fun htext hx hy => ?_⟩
    exact ResolvedType.isMixed_of_text_eq hx hy htext hconflict.type
  · rintro model field _ firstPackage second secondPackage h rfl
    obtain ⟨x, y, hconflict, -, hfirst, -, hsecond, -⟩ := contradicts_of_mergeFragments h
    exact hconflict.type (hapart model x hconflict.mem_first y hconflict.mem_second hconflict.name
      (hfirst.trans hsecond.symm))
  · rw [merge_isOk_iff, mergeable_iff]
    refine and_congr_right fun _ => ⟨fun h model x hx y hy hname => ?_, fun h model x hx y hy hname => ?_⟩
    · exact congrArg ResolvedType.text (h model x hx y hy hname)
    · exact hapart model x hx y hy hname (h model x hx y hy hname)

/-! ## A package in the place of the library -/

/-- A package whose path begins as those of the library do, and one that declares a field with its type. -/
def libraryTree : FileTree :=
  .ofTexts [(["std", "c", "x.rs"], "pub struct T;\n#[model]\npub struct M { pub x: T }"),
    (["a", "x.rs"], "#[model]\npub struct M { pub x: std::c::T }")]

/-- The program that a strict load makes of it. -/
def libraryProgram : Program :=
  ofWalk libraryTree rootOnly ⟨["std::c", "a"]⟩ .strict (walkOf libraryTree rootOnly ⟨["std::c", "a"]⟩)

/-- The load has nothing to tell, and a field of the program is refused. -/
theorem libraryProgram_refused : libraryProgram.diagnostics = [] ∧
    libraryProgram.merge "pool" =
      .error (.conflictingField "M" "x" "std::c::T" "std::c" "std::c::T" "a") ∧
    libraryProgram.declaredIn "pool" "M" =
      [⟨"x", .path (.declared "std::c" "T") [], [], "std::c"⟩,
        ⟨"x", .path (.external ["std", "c", "T"]) [], [], "a"⟩] := by
  rw [libraryProgram, ← countedWalk_eq]
  decide +kernel

theorem load_libraryTree :
    load libraryTree rootOnly ⟨["std::c", "a"]⟩ .strict = .ok libraryProgram :=
  load_eq_ok_iff.2 ⟨List.cons_ne_nil _ _, rfl, fun _ => libraryProgram_refused.1⟩

/-- The two declarations print alike and mix kinds: the first stands for a type of the package, the second for
a path of the library. -/
theorem merge_refuses_library :
    load libraryTree rootOnly ⟨["std::c", "a"]⟩ .strict = .ok libraryProgram ∧
      ∃ x ∈ libraryProgram.declaredIn "pool" "M", ∃ y ∈ libraryProgram.declaredIn "pool" "M",
        x.package = "std::c" ∧ y.package = "a" ∧ x.type.text = y.type.text ∧
          ResolvedType.IsMixed x.type y.type := by
  obtain ⟨-, hmerge, hdeclared⟩ := libraryProgram_refused
  have hplain : ∀ z ∈ libraryProgram.declaredIn "pool" "M", ResolvedType.IsPlain z.type := by
    rw [hdeclared]
    refine List.forall_mem_cons.2 ⟨⟨Source.isReadable_of_isStructured (by decide), ?_⟩,
      List.forall_mem_singleton.2 ⟨Source.isReadable_of_isStructured (by decide), ?_⟩⟩
    · exact List.forall_mem_singleton.2 (by decide : ':' ∉ "T".toList)
    · exact List.forall_mem_singleton.2 ⟨List.cons_ne_nil _ _, by decide⟩
  obtain ⟨x, y, hconflict, -, -, hfirst, hx, hsecond, hy, hmixed⟩ :=
    (merge_refuses libraryProgram "pool").1 _ _ _ _ _ _ hmerge
  refine ⟨load_libraryTree, x, hconflict.mem_first, y, hconflict.mem_second, hx, hy,
    hfirst.trans hsecond.symm, ?_⟩
  exact hmixed rfl (hplain x hconflict.mem_first) (hplain y hconflict.mem_second)

/-- **Not every refusal names two texts.** -/
theorem not_forall_refusals_differ : ¬ ∀ (t : FileTree) (roots : SourceRoots) (imports : ImportSet)
    (p : Program), load t roots imports .strict = .ok p →
      ∀ pool model field first firstPackage second secondPackage,
        p.merge pool =
          .error (.conflictingField model field first firstPackage second secondPackage) →
        first ≠ second := by
  intro h
  exact h _ _ _ _ load_libraryTree _ _ _ _ _ _ _ libraryProgram_refused.2.1 rfl

end Program

end ModelPool
