import ModelPool.Proofs.Check.Targets

/-!
# Proofs/Check/Part — a file when fewer packages are loaded

    loaded     A  b::B  c::C      every path is accepted
    of these   A  b::B            c::C stands for nothing

When fewer packages are loaded, a file still binds the same names.  It has no problems exactly if the items
that it imports are declared by packages still loaded, and so is what its types stand for; only a name that
comes from a glob may come from another one.

* `resolvePath_part_iff` — when a path is accepted with fewer packages.
* `found_check_part_iff` — when a file has no problems with fewer packages.
-/

namespace ModelPool

/-! ## Fewer packages -/

theorem Surroundings.isSome_of_declares {s : Surroundings} {owner name : String}
    (h : s.declares owner name = true) : (s.declarations? owner).isSome = true := by
  unfold declares at h
  split at h
  · next d hd => simp [hd]
  · simp at h

theorem Surroundings.isSome_of_declaresType {s : Surroundings} {owner name : String}
    (h : s.declaresType owner name = true) : (s.declarations? owner).isSome = true := by
  unfold declaresType at h
  split at h
  · next d hd => simp [hd]
  · simp at h

/-- **Fewer packages are loaded**, each of which declares the same; one package is loaded in either. -/
structure Surroundings.Part (s' s : Surroundings) (package : String) : Prop where
  classify : s'.classify = s.classify
  own : (s'.declarations? package).isSome = true
  same : ∀ {owner}, (s'.declarations? owner).isSome = true →
    s'.declarations? owner = s.declarations? owner

namespace Surroundings.Part

variable {s' s : Surroundings} {package : String} (h : s'.Part s package)
include h

theorem declares_eq {owner : String} (hloaded : (s'.declarations? owner).isSome = true)
    (name : String) : s'.declares owner name = s.declares owner name := by
  simp only [declares, h.same hloaded]

theorem declaresType_eq {owner : String} (hloaded : (s'.declarations? owner).isSome = true)
    (name : String) : s'.declaresType owner name = s.declaresType owner name := by
  simp only [declaresType, h.same hloaded]

/-- The other way round, more packages are loaded. -/
theorem toExtends : s'.Extends s package where
  classify := h.classify.symm
  own := (h.same h.own).symm
  declaresType := by
    intro owner name hdeclares
    rw [← h.declaresType_eq (isSome_of_declaresType hdeclares)]
    exact hdeclares
  loaded := by
    intro owner hloaded
    rw [← h.same hloaded]
    exact hloaded

end Surroundings.Part

namespace Scope

/-- **What a path stands for is still loaded**, or some glob lends the name. -/
def StillNamed (s' : Surroundings) (scope : Scope) (path : List String) (target : TypeTarget) : Prop :=
  ∀ owner name, target = .declared owner name → (s'.declarations? owner).isSome = true ∨
    ∃ n, path = [n] ∧ ∃ g ∈ scope.globs, s'.declaresType g n = true

section Part

variable {s' s : Surroundings} {scope : Scope} (h : s'.Part s scope.package)
include h

theorem declaredIn_part_iff {package name : String} (hnil : (declaredIn s package name).2 = []) :
    (declaredIn s' package name).2 = [] ↔ (s'.declarations? package).isSome = true := by
  have htype : s.declaresType package name = true := by simpa [declaredIn] using hnil
  have hiff : (declaredIn s' package name).2 = [] ↔ s'.declaresType package name = true := by
    simp [declaredIn]
  rw [hiff]
  exact ⟨Surroundings.isSome_of_declaresType, fun hloaded => by rwa [h.declaresType_eq hloaded]⟩

theorem resolveQualified_part_iff {path : List String} (hnil : (resolveQualified s path).2 = []) :
    (resolveQualified s' path).2 = [] ↔ ∀ owner name,
      (resolveQualified s path).1 = .declared owner name → (s'.declarations? owner).isSome = true := by
  unfold resolveQualified at hnil ⊢
  cases hlast : path.getLast? with
  | none => simp
  | some last =>
    simp only [hlast] at hnil ⊢
    split at hnil
    · next hloaded =>
      rw [if_pos hloaded]
      have htarget : (∀ owner name,
          (declaredIn s (pathText path.dropLast) last).1 = .declared owner name →
            (s'.declarations? owner).isSome = true) ↔
          (s'.declarations? (pathText path.dropLast)).isSome = true := by
        simp [declaredIn]
      rw [htarget]
      split
      · next hpart => exact iff_of_true ((declaredIn_part_iff h hnil).2 hpart) hpart
      · next hpart => exact iff_of_false (by simp) hpart
    · simp at hnil

theorem resolveJoined_part_iff {first : String} {rest : List String}
    (hnil : (scope.resolveJoined s first rest).2 = []) :
    (scope.resolveJoined s' first rest).2 = [] ↔ ∀ owner name,
      (scope.resolveJoined s first rest).1 = .declared owner name →
        (s'.declarations? owner).isSome = true := by
  unfold resolveJoined at hnil ⊢
  dsimp only at hnil ⊢
  split
  · simp
  · next hexternal =>
    rw [if_neg hexternal] at hnil
    cases hbound : scope.binding? first with
    | none =>
      simp only [hbound] at hnil ⊢
      exact resolveQualified_part_iff h hnil
    | some b =>
      simp only [hbound] at hnil ⊢
      cases b with
      | package path =>
        match rest with
        | [last] =>
          refine (declaredIn_part_iff h hnil).trans ?_
          simp [declaredIn]
        | [] => exact resolveQualified_part_iff h hnil
        | _ :: _ :: _ => exact resolveQualified_part_iff h hnil
      | item above item => simp at hnil
      | external above => simp
      | unresolved => simp

/-- A name that a glob lends is still lent by some glob, or its package is gone. -/
theorem isSome_globWith?_part_iff {n owner : String} (hglob : scope.globWith? s n = some owner) :
    (scope.globWith? s' n).isSome = true ↔ scope.StillNamed s' [n] (.declared owner n) := by
  have hpart : (scope.globWith? s' n).isSome = true ↔
      ∃ g ∈ scope.globs, s'.declaresType g n = true := by
    rw [globWith?, List.find?_isSome]
  rw [hpart]
  constructor
  · exact fun hlent package name _ => .inr ⟨n, rfl, hlent⟩
  · intro hstill
    rcases hstill owner n rfl with hloaded | ⟨m, hm, hlent⟩
    · have hlent := (globWith?_eq_some_iff.1 hglob).1
      exact ⟨owner, List.mem_of_find?_eq_some hglob, by rwa [h.declaresType_eq hloaded]⟩
    · obtain rfl : n = m := by simpa using hm
      exact hlent

/-- A single name is lost only where it is not lent any more. -/
theorem resolveName_part_iff {n : String}
    (hitems : ∀ m owner item, scope.binding? m = some (.item owner item) →
      (s'.declarations? owner).isSome = true)
    (hnil : (scope.resolveName s n).2 = []) :
    (scope.resolveName s' n).2 = [] ↔ scope.StillNamed s' [n] (scope.resolveName s n).1 := by
  have hown := h.declaresType_eq h.own n
  unfold StillNamed resolveName at *
  rw [hown]
  by_cases hself : s.declaresType scope.package n = true
  · rw [if_pos hself, if_pos hself]
    refine iff_of_true rfl fun owner name htarget => .inl ?_
    obtain ⟨rfl, rfl⟩ : scope.package = owner ∧ n = name := by simpa using htarget
    exact h.own
  rw [if_neg hself] at hnil
  rw [if_neg hself, if_neg hself]
  cases hbound : scope.binding? n with
  | some b =>
    simp only [hbound] at hnil ⊢
    cases b with
    | item above item =>
      refine iff_of_true rfl fun owner name htarget => .inl ?_
      obtain ⟨rfl, rfl⟩ : above = owner ∧ item = name := by simpa using htarget
      exact hitems n above item hbound
    | package path => simp at hnil
    | external above => simp
    | unresolved => simp
  | none =>
    simp only [hbound] at hnil ⊢
    by_cases hbuiltin : isBuiltin n = true
    · rw [if_pos hbuiltin, if_pos hbuiltin]
      simp
    rw [if_neg hbuiltin] at hnil
    rw [if_neg hbuiltin, if_neg hbuiltin]
    cases hglob : scope.globWith? s n with
    | none => simp [hglob] at hnil
    | some owner =>
      have hiff := isSome_globWith?_part_iff h hglob
      unfold StillNamed at hiff
      rw [← hiff]
      cases scope.globWith? s' n <;> simp

/-- **When a path is accepted with fewer packages.** -/
theorem resolvePath_part_iff {generics path : List String}
    (hitems : ∀ m owner item, scope.binding? m = some (.item owner item) →
      (s'.declarations? owner).isSome = true)
    (hnil : (scope.resolvePath s generics path).2 = []) :
    (scope.resolvePath s' generics path).2 = [] ↔
      scope.StillNamed s' path (scope.resolvePath s generics path).1 := by
  cases path with
  | nil => simp [resolvePath, StillNamed]
  | cons first rest =>
    dsimp only [resolvePath] at hnil ⊢
    by_cases hgeneric : first = "Self" ∨ first ∈ generics
    · rw [if_pos hgeneric, if_pos hgeneric]
      simp [StillNamed]
    · rw [if_neg hgeneric] at hnil
      rw [if_neg hgeneric, if_neg hgeneric]
      cases rest with
      | nil => exact resolveName_part_iff h hitems hnil
      | cons second rest =>
        refine (resolveJoined_part_iff h hnil).trans ?_
        simp [StillNamed]

/-! ### Entries -/

/-- An entry binds in the same way. -/
theorem bind_part (n : String) (b : Binding) : scope.bind s' n b = scope.bind s n b := by
  have htaken : scope.isTaken s' n = scope.isTaken s n := by
    simp only [isTaken, h.declares_eq h.own]
  simp only [bind, htaken]

/-- The package of an item has to be loaded still. -/
theorem bindingFor_part_iff {u : UseEntry} {target : UseTarget}
    (hnil : (bindingFor s u target).2 = []) : (bindingFor s' u target).2 = [] ↔
      ∀ owner name, target = .item owner name → (s'.declarations? owner).isSome = true := by
  cases target with
  | item above item =>
    have hdeclares : s.declares above item = true := by simpa [bindingFor] using hnil
    have hiff : (bindingFor s' u (.item above item)).2 = [] ↔ s'.declares above item = true := by
      simp [bindingFor]
    rw [hiff]
    constructor
    · rintro hpart owner name heq
      obtain ⟨rfl, rfl⟩ : above = owner ∧ item = name := by simpa using heq
      exact Surroundings.isSome_of_declares hpart
    · intro hloaded
      rw [h.declares_eq (hloaded above item rfl), hdeclares]
  | package path => simp [bindingFor]
  | external => simp [bindingFor]
  | unsupported => simp [bindingFor] at hnil
  | unresolved => simp [bindingFor] at hnil
  | glob owner => simp [bindingFor] at hnil

theorem add_part_iff {u : UseEntry} (hnil : (scope.add s u).2 = []) :
    (scope.add s' u).2 = [] ↔ ∀ owner name, s.classify u = .item owner name →
      (s'.declarations? owner).isSome = true := by
  by_cases hglob : ∃ owner, s.classify u = .glob owner
  · obtain ⟨owner, howner⟩ := hglob
    have hnone : (scope.add s' u).2 = [] := by
      simp only [add, h.classify, howner]
      split <;> rfl
    refine iff_of_true hnone fun other name hitem => ?_
    exact absurd (howner.symm.trans hitem) (by simp)
  have hne : ∀ owner, s.classify u ≠ .glob owner := fun owner howner => hglob ⟨owner, howner⟩
  rw [add_of_ne_glob scope hne] at hnil
  rw [add_of_ne_glob scope (h.classify ▸ hne), h.classify]
  have hbinding : (bindingFor s' u (s.classify u)).1 = (bindingFor s u (s.classify u)).1 := by
    cases s.classify u <;> rfl
  cases hname : u.bindingName? with
  | none =>
    rw [hname] at hnil
    exact bindingFor_part_iff h hnil
  | some n =>
    rw [hname] at hnil
    obtain ⟨htarget, hbind⟩ := List.append_eq_nil_iff.1 hnil
    dsimp only
    rw [List.append_eq_nil_iff, hbinding, bind_part h, and_iff_left hbind]
    exact bindingFor_part_iff h htarget

theorem addAll_part_iff {file : FilePath} {uses : List UseEntry}
    (hnil : (addAll s file scope uses).found = []) : (addAll s' file scope uses).found = [] ↔
      ∀ u ∈ uses, ∀ owner name, s.classify u = .item owner name →
        (s'.declarations? owner).isSome = true := by
  induction uses generalizing scope with
  | nil => simp [addAll]
  | cons u r ih =>
    rw [found_addAll_cons, List.append_eq_nil_iff, List.map_eq_nil_iff] at hnil
    have hsame : (scope.add s' u).1 = (scope.add s u).1 := (add_eq h.toExtends u).symm
    rw [found_addAll_cons, List.append_eq_nil_iff, List.map_eq_nil_iff, List.forall_mem_cons,
      add_part_iff h hnil.1, hsame, ih (by rwa [package_add]) hnil.2]

end Part

end Scope

/-! ## A file with fewer packages -/

/-- **A file makes do with fewer packages**: it imports items only of what is loaded still, and what its
types stand for is loaded still, or lent by a glob. -/
structure SourceFile.MakesDo (s' s : Surroundings) (package : String) (f : SourceFile) : Prop where
  items : ∀ u ∈ f.unit.uses, ∀ owner name, s.classify u = .item owner name →
    (s'.declarations? owner).isSome = true
  types : ∀ x ∈ f.unit.writtenTypes, ∀ path ∈ x.type.names, ∀ owner name,
    (f.checkIn s package).target x.generics path = .declared owner name →
      (s'.declarations? owner).isSome = true ∨
        ∃ n, path = [n] ∧ ∃ u ∈ f.unit.uses, ∃ g, s.classify u = .glob g ∧ s'.declaresType g n = true

/-- **When a file has no problems with fewer packages.** -/
theorem SourceFile.found_check_part_iff {s' s : Surroundings} {package : String} {f : SourceFile}
    (h : s'.Part s package) (hnil : (f.check s package).found = []) :
    (f.check s' package).found = [] ↔ f.MakesDo s' s package := by
  obtain ⟨huses, htypes⟩ := found_check_eq_nil_iff.1 hnil
  have hpackage : (Scope.ofFile s package f).value.package = package := Scope.package_addAll _ _ _ _
  have hscope : (f.checkIn s' package).scope = (f.checkIn s package).scope :=
    (scope_checkIn h.toExtends f).symm
  have hentries : (Scope.ofFile s' package f).found = [] ↔ ∀ u ∈ f.unit.uses, ∀ owner name,
      s.classify u = .item owner name → (s'.declarations? owner).isSome = true :=
    @Scope.addAll_part_iff s' s ⟨package, [], []⟩ h f.path f.unit.uses huses
  have hpath : (∀ u ∈ f.unit.uses, ∀ owner name, s.classify u = .item owner name →
      (s'.declarations? owner).isSome = true) → ∀ x ∈ f.unit.writtenTypes, ∀ path ∈ x.type.names,
        ((f.checkIn s' package).scope.resolvePath s' x.generics path).2 = [] ↔
          (f.checkIn s package).scope.StillNamed s' path
            ((f.checkIn s package).target x.generics path) := by
    intro hitems x hx path hpath
    rw [hscope]
    refine Scope.resolvePath_part_iff (hpackage.symm ▸ h) (fun m owner item hbound => ?_)
      (htypes x hx path hpath)
    obtain ⟨-, u, hu, -, hitem⟩ := (Scope.binding?_eq_item_iff huses).1 hbound
    exact hitems u hu owner item hitem
  have hglobs : ∀ n, (∃ g ∈ (f.checkIn s package).scope.globs, s'.declaresType g n = true) ↔
      ∃ u ∈ f.unit.uses, ∃ g, s.classify u = .glob g ∧ s'.declaresType g n = true := by
    intro n
    constructor
    · rintro ⟨g, hg, hdeclares⟩
      obtain ⟨u, hu, hglob⟩ := Scope.mem_globs_iff.1 hg
      exact ⟨u, hu, g, hglob, hdeclares⟩
    · rintro ⟨u, hu, g, hglob, hdeclares⟩
      exact ⟨g, Scope.mem_globs_iff.2 ⟨u, hu, hglob⟩, hdeclares⟩
  rw [found_check_eq_nil_iff, hentries]
  constructor
  · rintro ⟨hitems, haccepts⟩
    refine ⟨hitems, fun x hx path hp owner name htarget => ?_⟩
    have hstill := (hpath hitems x hx path hp).1 (haccepts x hx path hp) owner name htarget
    exact hstill.imp_right fun ⟨n, hn, hlent⟩ => ⟨n, hn, (hglobs n).1 hlent⟩
  · rintro ⟨hitems, hstill⟩
    refine ⟨hitems, fun x hx path hp => (hpath hitems x hx path hp).2 fun owner name htarget => ?_⟩
    exact (hstill x hx path hp owner name htarget).imp_right
      fun ⟨n, hn, hlent⟩ => ⟨n, hn, (hglobs n).2 hlent⟩

end ModelPool
