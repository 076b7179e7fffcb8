import ModelPool.Proofs.Check.Part

/-!
# Proofs/Check/Wider — a file when more packages are loaded

    loaded   A  b::B  c::C            the entries of A use  b  and  c
    wider    A  b::B  c::C  d::D      which are the same

When more packages are loaded, and among the packages that a file's entries point to there is no new one, the
file binds the same names and is told the same of its entries.  A path that stood for something stands for
it still: what a glob lends it lends from the same package.

* `found_ofFile_eq` — what is told of the entries.
* `target_eq_of_isResolved` — what a path stands for.
* `filter_found_check` — names that are bound twice are told of entries only.
-/

namespace ModelPool

/-! ## Kinds of problems -/

/-- The kinds of problems that types have. -/
def DiagnosticKind.IsOfType (kind : DiagnosticKind) : Prop :=
  kind = .missingItem ∨ kind = .undefinedType

/-- The kinds of problems that entries have. -/
def DiagnosticKind.IsOfEntry (kind : DiagnosticKind) : Prop :=
  kind = .missingItem ∨ kind = .redeclared ∨ kind = .unresolvedImport ∨ kind = .unsupportedImport

namespace Scope

variable {s : Surroundings} {scope : Scope}

theorem isOfType_of_declaredIn {package name : String} :
    ∀ problem ∈ (declaredIn s package name).2, problem.kind.IsOfType := by
  intro problem h
  unfold declaredIn at h
  dsimp only at h
  split at h
  · exact absurd h List.not_mem_nil
  · rw [List.mem_singleton.1 h]
    exact .inl rfl

theorem isOfType_of_resolveQualified {path : List String} :
    ∀ problem ∈ (resolveQualified s path).2, problem.kind.IsOfType := by
  intro problem h
  unfold resolveQualified at h
  split at h
  · exact absurd h List.not_mem_nil
  · dsimp only at h
    split at h
    · exact isOfType_of_declaredIn problem h
    · rw [List.mem_singleton.1 h]
      exact .inr rfl

theorem isOfType_of_resolveJoined {first : String} {rest : List String} :
    ∀ problem ∈ (scope.resolveJoined s first rest).2, problem.kind.IsOfType := by
  intro problem h
  unfold resolveJoined at h
  dsimp only at h
  split at h
  · exact absurd h List.not_mem_nil
  · split at h
    · split at h
      · exact isOfType_of_declaredIn problem h
      · exact isOfType_of_resolveQualified problem h
    · exact absurd h List.not_mem_nil
    · rw [List.mem_singleton.1 h]
      exact .inr rfl
    · exact absurd h List.not_mem_nil
    · exact isOfType_of_resolveQualified problem h

theorem isOfType_of_resolveName {name : String} :
    ∀ problem ∈ (scope.resolveName s name).2, problem.kind.IsOfType := by
  intro problem h
  unfold resolveName at h
  repeat' split at h
  all_goals first
    | exact absurd h List.not_mem_nil
    | (rw [List.mem_singleton.1 h]; exact .inr rfl)

/-- **What a path has against it** is of a kind that no entry has but that of an item. -/
theorem isOfType_of_resolvePath {generics path : List String} :
    ∀ problem ∈ (scope.resolvePath s generics path).2, problem.kind.IsOfType := by
  intro problem h
  unfold resolvePath at h
  split at h
  · exact absurd h List.not_mem_nil
  · split at h
    · exact absurd h List.not_mem_nil
    · split at h
      · exact isOfType_of_resolveName problem h
      · exact isOfType_of_resolveJoined problem h

theorem isOfEntry_of_bind {name : String} {b : Binding} :
    ∀ problem ∈ (scope.bind s name b).2, problem.kind.IsOfEntry := by
  intro problem h
  unfold bind at h
  split at h
  · exact absurd h List.not_mem_nil
  · split at h
    · rw [List.mem_singleton.1 h]
      exact .inr (.inl rfl)
    · exact absurd h List.not_mem_nil

theorem isOfEntry_of_bindingFor {u : UseEntry} {target : UseTarget} :
    ∀ problem ∈ (bindingFor s u target).2, problem.kind.IsOfEntry := by
  intro problem h
  cases target with
  | item owner name =>
    unfold bindingFor at h
    dsimp only at h
    split at h
    · exact absurd h List.not_mem_nil
    · rw [List.mem_singleton.1 h]
      exact .inl rfl
  | package path => exact absurd h List.not_mem_nil
  | external => exact absurd h List.not_mem_nil
  | unsupported => exact List.mem_singleton.1 h ▸ .inr (.inr (.inr rfl))
  | _ => exact List.mem_singleton.1 h ▸ .inr (.inr (.inl rfl))

/-- **What is wrong with an entry** is of a kind that entries have. -/
theorem isOfEntry_of_add {u : UseEntry} : ∀ problem ∈ (scope.add s u).2, problem.kind.IsOfEntry := by
  by_cases hglob : ∃ owner, s.classify u = .glob owner
  · obtain ⟨owner, howner⟩ := hglob
    intro problem h
    simp only [add, howner] at h
    split at h <;> exact absurd h List.not_mem_nil
  · rw [add_of_ne_glob scope fun owner h => hglob ⟨owner, h⟩]
    split
    · exact isOfEntry_of_bindingFor
    · exact List.forall_mem_append.2 ⟨isOfEntry_of_bindingFor, isOfEntry_of_bind⟩

theorem isOfEntry_of_found_addAll {file : FilePath} {uses : List UseEntry} :
    ∀ d ∈ (addAll s file scope uses).found, d.kind.IsOfEntry := by
  induction uses generalizing scope with
  | nil => exact fun d hd => absurd hd List.not_mem_nil
  | cons u r ih =>
    rw [found_addAll_cons, List.forall_mem_append]
    refine ⟨fun d hd => ?_, ih⟩
    obtain ⟨problem, hproblem, rfl⟩ := List.mem_map.1 hd
    exact isOfEntry_of_add problem hproblem

/-- What is told of entries is told of the package of the file. -/
theorem package_of_found_addAll {file : FilePath} {uses : List UseEntry} :
    ∀ d ∈ (addAll s file scope uses).found, d.package = scope.package := by
  induction uses generalizing scope with
  | nil => exact fun d hd => absurd hd List.not_mem_nil
  | cons u r ih =>
    rw [found_addAll_cons, List.forall_mem_append]
    refine ⟨fun d hd => ?_, fun d hd => (ih d hd).trans (package_add s scope u)⟩
    obtain ⟨problem, -, rfl⟩ := List.mem_map.1 hd
    exact package_add s scope u

end Scope

namespace SourceFile

variable {s : Surroundings} {package : String} {f : SourceFile}

/-- What is told of the types of a file is of these kinds, and of its package. -/
theorem isOfType_of_foundInTypes :
    ∀ d ∈ f.foundInTypes s package, d.kind.IsOfType ∧ d.package = package :=
  foundInTypes_iff (P := fun kind owner => kind.IsOfType ∧ owner = package) |>.2
    fun _ _ _ _ problem h => ⟨Scope.isOfType_of_resolvePath problem h, Scope.package_addAll _ _ _ _⟩

/-- What is told of a file is told of its package. -/
theorem package_of_found_check : ∀ d ∈ (f.check s package).found, d.package = package := by
  rw [found_check_eq, List.forall_mem_append]
  exact ⟨Scope.package_of_found_addAll, fun d hd => (isOfType_of_foundInTypes d hd).2⟩

/-- **Names that are declared or bound again** are told of entries only. -/
theorem filter_found_check (q : Diagnostic → Bool) (hq : ∀ d, q d = true → d.kind = .redeclared) :
    (f.check s package).found.filter q = (Scope.ofFile s package f).found.filter q := by
  have hnone : (f.foundInTypes s package).filter q = [] := by
    rw [List.filter_eq_nil_iff]
    intro d hd hkind
    have hof := (isOfType_of_foundInTypes d hd).1
    rw [hq d hkind] at hof
    rcases hof with h | h <;> exact absurd h (by decide)
  rw [found_check_eq, List.filter_append, hnone, List.append_nil]

end SourceFile

/-! ## More packages -/

/-- **Fewer packages are loaded, but none less of those that entries point to.** -/
structure Surroundings.Covers (s' s : Surroundings) (package : String) (uses : List UseEntry) : Prop
    extends s'.Part s package where
  entries : ∀ u ∈ uses, ∀ owner, (s.classify u).package? = some owner →
    s'.declarations? owner = s.declarations? owner

namespace Scope

variable {s' s : Surroundings} {scope : Scope}

/-- An entry has the same problems. -/
theorem problems_add_eq {u : UseEntry} {r : List UseEntry} (h : s'.Covers s scope.package (u :: r)) :
    (scope.add s' u).2 = (scope.add s u).2 := by
  have hbinding : bindingFor s' u (s.classify u) = bindingFor s u (s.classify u) := by
    cases htarget : s.classify u with
    | item owner name =>
      have hsame : s'.declares owner = s.declares owner := by
        funext name
        simp only [Surroundings.declares, h.entries u List.mem_cons_self owner (by rw [htarget]; rfl)]
      simp only [bindingFor, hsame]
    | _ => rfl
  unfold add
  rw [h.classify]
  split
  · split <;> rfl
  · dsimp only
    rw [hbinding]
    split
    · rfl
    · rw [bind_part h.toPart]

theorem found_addAll_eq {file : FilePath} {uses : List UseEntry} (h : s'.Covers s scope.package uses) :
    (addAll s' file scope uses).found = (addAll s file scope uses).found := by
  induction uses generalizing scope with
  | nil => rfl
  | cons u r ih =>
    have hadd : (scope.add s' u).1 = (scope.add s u).1 := (add_eq h.toPart.toExtends u).symm
    have hrest : s'.Covers s (scope.add s u).1.package r :=
      ⟨(package_add s scope u).symm ▸ h.toPart, fun v hv => h.entries v (List.mem_cons_of_mem _ hv)⟩
    rw [found_addAll_cons, found_addAll_cons, problems_add_eq h, hadd, ih hrest]

/-- **What is told of the entries of a file.** -/
theorem found_ofFile_eq {package : String} {f : SourceFile} (h : s'.Covers s package f.unit.uses) :
    (ofFile s' package f).found = (ofFile s package f).found :=
  @found_addAll_eq s' s ⟨package, [], []⟩ f.path f.unit.uses h

end Scope

/-- **A path that stands for something** stands for it still. -/
theorem SourceFile.target_eq_of_isResolved {s' s : Surroundings} {package : String} {f : SourceFile}
    (h : s'.Covers s package f.unit.uses) {generics path : List String}
    (hres : ((f.checkIn s' package).target generics path).IsResolved) :
    (f.checkIn s package).target generics path = (f.checkIn s' package).target generics path := by
  refine (target_eq_iff h.toPart.toExtends hres).2 fun name hname hlost => ?_
  obtain ⟨before, owner, after, hglobs, -, hbefore, g, hg, hdeclares⟩ := hlost.lost
  -- the glob that has come to lend the name is one of the file, and lends what it lent
  have hmem : g ∈ (f.checkIn s' package).scope.globs := hglobs ▸ List.mem_append_left _ hg
  obtain ⟨u, hu, hglob⟩ := Scope.mem_globs_iff.1 hmem
  rw [h.classify] at hglob
  have hsame := h.entries u hu g (by rw [hglob]; rfl)
  have hfree := hbefore g hg
  rw [Surroundings.declaresType, hsame] at hfree
  exact absurd (hdeclares.symm.trans hfree) (by simp)

end ModelPool
