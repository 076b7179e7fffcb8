import ModelPool.Proofs.Check.Entries
import ModelPool.Proofs.Load.Counted
import ModelPool.Proofs.Load.Strict
import ModelPool.Proofs.Source.Tiling

/-!
# Proofs/Load/Unresolved — what stands for nothing has been told of

    B, b::B, p    nothing stands there         told at the line of the type
    b::B, b       b is bound by an entry       told at the line of the entry
                  that points nowhere
    ::            a path without segments      the file is malformed, and told of

The checker leaves a path without a target in many places.  In most it tells what is wrong with the path.
Where the first segment is bound by an entry that points nowhere, it is silent about the path, since it has
told of the entry.  It is silent as well about a path without segments, which is read only from a malformed
source, and the walk tells of that.

* `problem_or_bound_of_unresolved` — what a path without a target has against it.
* `exists_told_of_binds` — what is told of an entry that points nowhere.
* `load_unresolved_told` — every path without a target is accounted for.
* `not_forall_load_unresolved_told` — though not always by what is undefined or imported.
-/

namespace ModelPool

/-! ## Paths without a target -/

namespace Scope

variable {s : Surroundings} {scope : Scope} {generics path segments : List String} {name : String}

/-- A path has a problem that is told at the line of its type. -/
def HasUndefined (problems : List Problem) : Prop := ∃ problem ∈ problems, problem.kind = .undefinedType

theorem hasUndefined_singleton {problem : Problem} (h : problem.kind = .undefinedType) :
    HasUndefined [problem] := ⟨problem, List.mem_cons_self, h⟩

theorem hasUndefined_of_resolveQualified (hpath : path ≠ [])
    (h : (resolveQualified s path).1 = .unresolved segments) :
    HasUndefined (resolveQualified s path).2 := by
  unfold resolveQualified at h ⊢
  cases hlast : path.getLast? with
  | none => exact absurd (List.getLast?_eq_none_iff.1 hlast) hpath
  | some name =>
    simp only [hlast] at h ⊢
    split at h
    · simp [declaredIn] at h
    · next hloaded =>
      rw [if_neg hloaded]
      exact hasUndefined_singleton rfl

theorem problem_or_bound_of_resolveName (h : (scope.resolveName s name).1 = .unresolved segments) :
    HasUndefined (scope.resolveName s name).2 ∨ scope.binding? name = some .unresolved := by
  unfold resolveName at h ⊢
  split at h
  · simp at h
  · next hown =>
    rw [if_neg hown]
    cases hbound : scope.binding? name with
    | some b =>
      simp only [hbound] at h ⊢
      cases b with
      | package path => exact .inl (hasUndefined_singleton rfl)
      | item owner item => simp at h
      | external path => simp at h
      | unresolved => exact .inr rfl
    | none =>
      simp only [hbound] at h ⊢
      split at h
      · simp at h
      · next hbuiltin =>
        rw [if_neg hbuiltin]
        split at h
        · simp at h
        · exact .inl (hasUndefined_singleton rfl)

theorem problem_or_bound_of_resolveJoined {first : String} {rest : List String} (hrest : rest ≠ [])
    (h : (scope.resolveJoined s first rest).1 = .unresolved segments) :
    HasUndefined (scope.resolveJoined s first rest).2 ∨ scope.binding? first = some .unresolved := by
  unfold resolveJoined at h ⊢
  dsimp only at h ⊢
  split at h
  · simp at h
  · next hexternal =>
    rw [if_neg hexternal]
    cases hbound : scope.binding? first with
    | none =>
      simp only [hbound] at h ⊢
      exact .inl (hasUndefined_of_resolveQualified (List.cons_ne_nil _ _) h)
    | some b =>
      simp only [hbound] at h ⊢
      cases b with
      | package owner =>
        rcases rest with _ | ⟨second, _ | ⟨third, rest⟩⟩
        · exact absurd rfl hrest
        · simp [declaredIn] at h
        · exact .inl (hasUndefined_of_resolveQualified (List.append_ne_nil_of_right_ne_nil _ hrest) h)
      | item owner item => exact .inl (hasUndefined_singleton rfl)
      | external above => simp at h
      | unresolved => exact .inr rfl

/-- **What a path without a target has against it**: a problem that is told, unless its first segment is
bound to nothing. -/
theorem problem_or_bound_of_unresolved (hpath : path ≠ [])
    (h : (scope.resolvePath s generics path).1 = .unresolved segments) :
    HasUndefined (scope.resolvePath s generics path).2 ∨
      ∃ first, path.head? = some first ∧ scope.binding? first = some .unresolved := by
  cases path with
  | nil => exact absurd rfl hpath
  | cons first rest =>
    dsimp only [resolvePath] at h ⊢
    by_cases hgeneric : first = "Self" ∨ first ∈ generics
    · rw [if_pos hgeneric] at h
      simp at h
    · rw [if_neg hgeneric] at h ⊢
      cases rest with
      | nil => exact (problem_or_bound_of_resolveName h).imp_right fun hb => ⟨first, rfl, hb⟩
      | cons second rest =>
        exact (problem_or_bound_of_resolveJoined (List.cons_ne_nil _ _) h).imp_right
          fun hb => ⟨first, rfl, hb⟩

/-! ## Entries that point nowhere -/

/-- What is wrong with the target of an entry is told at the line of the entry. -/
theorem mem_found_addAll {file : FilePath} {uses : List UseEntry} {u : UseEntry} (hu : u ∈ uses)
    (hglob : ∀ owner, s.classify u ≠ .glob owner) {problem : Problem}
    (h : problem ∈ (bindingFor s u (s.classify u)).2) :
    problem.inFile scope.package file u.line ∈ (addAll s file scope uses).found := by
  induction uses generalizing scope with
  | nil => exact absurd hu List.not_mem_nil
  | cons v r ih =>
    rw [found_addAll_cons, List.mem_append, package_add]
    rcases List.mem_cons.1 hu with rfl | hu
    · refine .inl (List.mem_map_of_mem ?_)
      rw [add_of_ne_glob scope hglob]
      cases u.bindingName? with
      | none => exact h
      | some name => exact List.mem_append_left _ h
    · exact .inr (package_add s scope v ▸ ih hu)

/-- **What is told of an entry that points nowhere.** -/
theorem exists_told_of_binds {file : FilePath} {uses : List UseEntry} {u : UseEntry} (hu : u ∈ uses)
    (h : Binds s u name .unresolved) : ∃ problem : Problem,
      (problem.kind = .unresolvedImport ∨ problem.kind = .unsupportedImport) ∧
        problem.inFile scope.package file u.line ∈ (addAll s file scope uses).found := by
  have hbinding := h.binding
  cases htarget : s.classify u with
  | unsupported =>
    refine ⟨.relativeImport u.pathText, .inr rfl, mem_found_addAll hu h.ne_glob ?_⟩
    rw [htarget]
    exact List.mem_cons_self
  | unresolved =>
    refine ⟨.unresolvedImport u.pathText, .inl rfl, mem_found_addAll hu h.ne_glob ?_⟩
    rw [htarget]
    exact List.mem_cons_self
  | glob owner => exact absurd htarget (h.ne_glob owner)
  | _ =>
    rw [htarget] at hbinding
    simp [bindingFor] at hbinding

end Scope

/-! ## Types that are read -/

/-- **The paths of a type that has been read have segments.** -/
theorem TypeExpr.IsParsed.ne_nil {t : TypeExpr} (h : t.IsParsed) : ∀ path ∈ t.names, path ≠ [] := by
  induction t using Ty.partsInduction with
  | path name args ih =>
    rw [Ty.names_path, List.forall_mem_cons]
    refine ⟨h.1, fun path hpath => ?_⟩
    obtain ⟨t, ht, hmem⟩ := Ty.mem_namesAll.1 hpath
    exact ih t ht (allParsed_iff.1 h.2 t ht) path hmem
  | reference lifetime mutable inner ih => exact ih h.2
  | slice element ih => exact ih h
  | array element length ih => exact ih h.1
  | tuple elements ih =>
    intro path hpath
    obtain ⟨t, ht, hmem⟩ := Ty.mem_namesAll.1 hpath
    exact ih t ht (TypeExpr.allParsed_iff.1 h t ht) path hmem
  | traitObject keyword bound ih => exact ih h.2.2
  | verbatim text => exact fun path hpath => absurd hpath List.not_mem_nil

theorem Member.mem_types {generics : List String} {m : Member} {x : WrittenType}
    (h : x ∈ m.writtenTypes generics) : x.type ∈ m.types := by
  cases m with
  | function name signature line =>
    obtain ⟨t, ht, rfl⟩ := List.mem_map.1 h
    exact ht
  | const name t line =>
    rw [List.mem_singleton.1 h]
    exact List.mem_cons_self
  | type name t line =>
    rw [List.mem_singleton.1 h]
    exact List.mem_cons_self

/-- **Every type of a well-formed source is one that has been read.** -/
theorem SourceUnit.isParsed_of_mem_writtenTypes {cs : List Char} (hwell : (ofCharacters cs).syntaxErrors = [])
    {x : WrittenType} (h : x ∈ (ofCharacters cs).writtenTypes) : x.type.IsParsed := by
  rcases List.mem_append.1 h with h | h
  · obtain ⟨i, hi, hx⟩ := List.mem_flatMap.1 h
    obtain ⟨t, ht, rfl⟩ := List.mem_map.1 hx
    exact isParsed_of_mem_items hwell hi ht
  · obtain ⟨b, hb, hx⟩ := List.mem_flatMap.1 h
    refine isParsed_of_mem_impls hwell hb ?_
    rw [ImplBlock.types, ← List.cons_append, List.mem_append]
    rcases List.mem_append.1 hx with hx | hx
    · obtain ⟨t, ht, rfl⟩ := List.mem_map.1 hx
      exact .inl ht
    · obtain ⟨m, hm, hx⟩ := List.mem_flatMap.1 hx
      exact .inr (List.mem_flatMap.2 ⟨m, hm, Member.mem_types hx⟩)

/-! ## Loaded files -/

namespace Program

section Load

variable {t : FileTree} {roots : SourceRoots} {imports : ImportSet} {mode : LoadMode} {p : Program}

/-- What is told of a file of a loaded package is among the diagnostics. -/
theorem mem_diagnostics_of_mem_found (h : load t roots imports mode = .ok p) {x : String × PackageInfo}
    (hx : x ∈ (walkOf t roots imports).loaded) {f : SourceFile} (hf : f ∈ x.2.files) {d : Diagnostic}
    (hd : d ∈ (f.check (surroundingsOf t roots imports) x.1).found) : d ∈ p.diagnostics := by
  obtain ⟨-, rfl, -⟩ := load_eq_ok_iff.1 h
  refine List.mem_append_right _ ?_
  rw [found_checkPackages]
  refine List.mem_flatMap.2 ⟨x, hx, ?_⟩
  rw [SourceFile.found_checkAll]
  exact List.mem_flatMap.2 ⟨f, hf, hd⟩

/-- **What is wrong with a path** is told at the line of its type. -/
theorem mem_diagnostics_of_mem_problems (h : load t roots imports mode = .ok p) {x : String × PackageInfo}
    (hx : x ∈ (walkOf t roots imports).loaded) {f : SourceFile} (hf : f ∈ x.2.files) {y : PlacedType}
    (hy : y ∈ f.unit.placedTypes) {path : List String} (hpath : path ∈ y.type.names) {problem : Problem}
    (hproblem : problem ∈ ((f.checkIn (surroundingsOf t roots imports) x.1).scope.resolvePath
      (surroundingsOf t roots imports) y.generics path).2) :
    problem.inFile x.1 f.path y.line ∈ p.diagnostics := by
  refine mem_diagnostics_of_mem_found h hx hf ?_
  rw [SourceFile.found_check_eq, SourceFile.foundInTypes_eq]
  refine List.mem_append_right _ (List.mem_flatMap.2 ⟨y, hy, List.mem_flatMap.2 ⟨path, hpath, ?_⟩⟩)
  exact List.mem_map.2 ⟨problem, hproblem, congrArg (problem.inFile · f.path y.line)
    (Scope.package_addAll _ _ _ _)⟩

/-- **What is malformed in a file of a loaded package** is told. -/
theorem mem_diagnostics_of_mem_syntaxErrors (h : load t roots imports mode = .ok p) {x : String × PackageInfo}
    (hx : x ∈ (walkOf t roots imports).loaded) {f : SourceFile} (hf : f ∈ x.2.files) {e : SyntaxError}
    (he : e ∈ f.unit.syntaxErrors) : (Problem.malformed e).inFile x.1 f.path e.line ∈ p.diagnostics := by
  obtain ⟨-, rfl, -⟩ := load_eq_ok_iff.1 h
  refine List.mem_append_left _ (List.mem_append_left _ (ImportGraph.mem_diagnostics_walk hx fun initial => ?_))
  exact List.mem_append_left _ (List.mem_flatMap.2 ⟨f, hf, List.mem_map_of_mem he⟩)

/-- The paths in the files of loaded packages have segments, unless a file is malformed. -/
theorem ne_nil_of_mem_names {x : String × PackageInfo} (hx : x ∈ (walkOf t roots imports).loaded)
    {f : SourceFile} (hf : f ∈ x.2.files) (hwell : f.unit.syntaxErrors = []) {y : WrittenType}
    (hy : y ∈ f.unit.writtenTypes) {path : List String} (hpath : path ∈ y.type.names) : path ≠ [] := by
  obtain ⟨⟨dir, -, hread⟩, -⟩ := mem_loaded_iff.1 hx
  obtain ⟨cs, hcs⟩ := PackageInfo.exists_ofCharacters_of_read hread hf
  exact (SourceUnit.isParsed_of_mem_writtenTypes (hcs ▸ hwell) (hcs ▸ hy)).ne_nil path hpath

/-- **Every path without a target is accounted for.**  If a path of a type in a file of a loaded package
stands for nothing, then something has been told in this file: at the line of the type that a type is
undefined, or at the line of the entry that binds the first segment of the path that the entry cannot be
resolved or is not supported.  Only where the path has no segments it is that the file is malformed. -/
theorem load_unresolved_told (h : load t roots imports mode = .ok p) {a : Package}
    (ha : a ∈ p.packages) {f : SourceFile} (hf : f ∈ a.files) {x : PlacedType}
    (hx : x ∈ f.unit.placedTypes) {path : List String} (hpath : path ∈ x.type.names)
    {segments : List String}
    (htarget : (f.checkIn (surroundingsOf t roots imports) a.importPath).target x.generics path =
      .unresolved segments) :
    ∃ d ∈ p.diagnostics, d.package = a.importPath ∧ d.file = some f.path ∧
      (d.kind = .undefinedType ∧ d.line = x.line ∨
        ((d.kind = .unresolvedImport ∨ d.kind = .unsupportedImport) ∧
          ∃ first u, path.head? = some first ∧ d.line = u.line ∧
            Scope.BindsFirst (surroundingsOf t roots imports) f.unit.uses u first .unresolved) ∨
        d.kind = .syntaxError ∧ path = []) := by
  rw [packages_of_load h] at ha
  obtain ⟨y, hy, rfl⟩ := List.mem_map.1 ha
  have hwritten : x.toWrittenType ∈ f.unit.writtenTypes := by
    rw [← SourceUnit.map_placedTypes]
    exact List.mem_map_of_mem hx
  by_cases hnil : path = []
  · cases herrors : f.unit.syntaxErrors with
    | nil => exact absurd hnil (ne_nil_of_mem_names hy hf herrors hwritten hpath)
    | cons e r =>
      have he : e ∈ f.unit.syntaxErrors := herrors ▸ List.mem_cons_self
      exact ⟨_, mem_diagnostics_of_mem_syntaxErrors h hy hf he, rfl, rfl, .inr (.inr ⟨rfl, hnil⟩)⟩
  rcases Scope.problem_or_bound_of_unresolved hnil htarget with
    ⟨problem, hproblem, hkind⟩ | ⟨first, hfirst, hbound⟩
  · exact ⟨_, mem_diagnostics_of_mem_problems h hy hf hx hpath hproblem, rfl, rfl, .inl ⟨hkind, rfl⟩⟩
  · obtain ⟨-, u, hu⟩ := Scope.binding?_ofFile_first_iff.1 hbound
    obtain ⟨problem, hkind, hproblem⟩ := Scope.exists_told_of_binds hu.mem hu.binds
    have hfound : problem.inFile y.1 f.path u.line ∈
        (f.check (surroundingsOf t roots imports) y.1).found := by
      rw [SourceFile.found_check_eq]
      exact List.mem_append_left _ hproblem
    exact ⟨_, mem_diagnostics_of_mem_found h hy hf hfound, rfl, rfl,
      .inr (.inl ⟨hkind, first, u, hfirst, rfl, hu⟩)⟩

end Load

/-- A package with a field that nothing declares, and one whose type is imported from nowhere. -/
def goneTree : FileTree := .ofTexts [(["a", "x.rs"], "use gone::B;\npub struct A(\nB, C);")]

/-- What is imported from nowhere is told at the import. -/
theorem load_unresolved_told_gone : ∃ p, load goneTree rootOnly ⟨["a"]⟩ .tolerant = .ok p ∧
    ∃ d ∈ p.diagnostics, d.package = "a" ∧
      (d.kind = .undefinedType ∨ d.kind = .unresolvedImport ∨ d.kind = .unsupportedImport) := by
  obtain ⟨p, hp⟩ : ∃ p, load goneTree rootOnly ⟨["a"]⟩ .tolerant = .ok p :=
    ⟨_, load_eq_ok_iff.2 ⟨by simp, rfl, nofun⟩⟩
  have hpath : ∃ x ∈ (walkOf goneTree rootOnly ⟨["a"]⟩).loaded, x.1 = "a" ∧ ∃ f ∈ x.2.files,
      ∃ y ∈ f.unit.placedTypes, ∃ path ∈ y.type.names,
        path.head? = some "B" ∧ (f.checkIn (surroundingsOf goneTree rootOnly ⟨["a"]⟩) x.1).target y.generics path =
          .unresolved ["B"] := by
    rw [surroundingsOf_counted, ← countedWalk_eq]
    decide +kernel
  obtain ⟨x, hx, hname, f, hf, y, hy, path, hpath, hhead, htarget⟩ := hpath
  obtain ⟨d, hd, hpackage, -, htold⟩ :=
    load_unresolved_told hp (mem_packages_of_loaded hp hx) hf hy hpath htarget
  refine ⟨p, hp, d, hd, hpackage.trans hname, htold.imp And.left fun h => h.elim And.left ?_⟩
  rintro ⟨-, rfl⟩
  exact absurd hhead (by simp)

/-- An alias whose type lacks its name. -/
def namelessTree : FileTree := .ofTexts [(["a", "x.rs"], "type T = ::;")]

/-- **Not every path without a target is told to be undefined** or imported from nowhere: one without segments is
passed over in silence. -/
theorem not_forall_load_unresolved_told : ¬ ∀ (t : FileTree) (roots : SourceRoots) (imports : ImportSet)
    (p : Program), load t roots imports .tolerant = .ok p → ∀ a ∈ p.packages, ∀ f ∈ a.files,
      ∀ x ∈ f.unit.placedTypes, ∀ path ∈ x.type.names,
        (∃ segments, (f.checkIn (surroundingsOf t roots imports) a.importPath).target x.generics path =
          .unresolved segments) →
        ∃ d ∈ p.diagnostics, d.file = some f.path ∧
          (d.kind = .undefinedType ∨ d.kind = .unresolvedImport ∨ d.kind = .unsupportedImport) := by
  intro hall
  have hsilent : (countedProgram namelessTree rootOnly ⟨["a"]⟩ .tolerant).diagnostics.all
      (fun d => d.kind == .syntaxError) = true := by decide +kernel
  have hpath : ∃ x ∈ (walkOf namelessTree rootOnly ⟨["a"]⟩).loaded, ∃ f ∈ x.2.files,
      ∃ y ∈ f.unit.placedTypes, ∃ path ∈ y.type.names,
        (f.checkIn (surroundingsOf namelessTree rootOnly ⟨["a"]⟩) x.1).target y.generics path =
          .unresolved [] := by
    rw [surroundingsOf_counted, ← countedWalk_eq]
    decide +kernel
  obtain ⟨x, hx, f, hf, y, hy, path, hpath, htarget⟩ := hpath
  have hload : load namelessTree rootOnly ⟨["a"]⟩ .tolerant = .ok (countedProgram namelessTree rootOnly ⟨["a"]⟩ .tolerant) :=
    load_eq_ok_counted (by simp) nofun
  obtain ⟨d, hd, -, hkind⟩ :=
    hall _ _ _ _ hload _ (mem_packages_of_loaded hload hx) f hf y hy path hpath ⟨_, htarget⟩
  have hsyntax := List.all_eq_true.1 hsilent d hd
  rcases hkind with hkind | hkind | hkind <;> exact absurd hsyntax (by rw [hkind]; decide)

end Program

end ModelPool
