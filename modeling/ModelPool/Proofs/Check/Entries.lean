import Mathlib.Data.List.Basic
import ModelPool.Proofs.Check.Targets

/-!
# Proofs/Check/Entries — which entry binds a name

    use a;         binds a     unless the package of the file declares it, which is a problem
    use b as c;    binds c
    use d as c;    is refused

A name is bound by the first entry of the file that would bind it, and by none if the package of the file
declares it.  Where no two entries bind one name, and none of them is a glob, none is in the way of another,
and each binds its name unless the package declares it.

* `binding?_ofFile_first_iff` — what a file binds.
* `binding?_ofFile_iff` — what a file binds whose entries bind different names.
* `redeclared_ofFile_iff` — when one of its entries is refused.
-/

namespace ModelPool

namespace Scope

variable {s : Surroundings} {scope : Scope} {u : UseEntry} {name : String} {b : Binding}

/-- **Entries that bind different names**, and no globs. -/
structure AreDistinct (s : Surroundings) (uses : List UseEntry) : Prop where
  names : (uses.map UseEntry.bindingName?).Nodup
  ne_glob : ∀ u ∈ uses, ∀ owner, s.classify u ≠ .glob owner

theorem AreDistinct.tail {r : List UseEntry} (h : AreDistinct s (u :: r)) : AreDistinct s r where
  names := (List.nodup_cons.1 (List.map_cons (f := UseEntry.bindingName?) ▸ h.names)).2
  ne_glob := fun v hv => h.ne_glob v (List.mem_cons_of_mem _ hv)

theorem AreDistinct.ne_of_mem {r : List UseEntry} (h : AreDistinct s (u :: r)) {v : UseEntry} (hv : v ∈ r)
    (hname : v.bindingName? = some name) : u.bindingName? ≠ some name := by
  have hnodup := h.names
  rw [List.map_cons, List.nodup_cons] at hnodup
  intro hu
  exact hnodup.1 (List.mem_map.2 ⟨v, hv, hname.trans hu.symm⟩)

/-! ## One entry -/

/-- An entry leaves the names alone that it does not bind. -/
theorem binding?_add_of_ne (h : u.bindingName? ≠ some name) :
    (scope.add s u).1.binding? name = scope.binding? name := by
  rcases add_cases s scope u with ⟨owner, -, heq⟩ | ⟨-, heq, -⟩ | ⟨-, n, c, hbinds, hfree, heq⟩
  · rw [heq, binding?_withGlob]
  · rw [heq]
  · have hne : name ≠ n := fun e => h (e ▸ hbinds.bindingName)
    refine Option.ext fun b => ?_
    rw [heq, binding?_withBinding (binding?_eq_none_of_not_isTaken hfree)]
    simp [hne]

/-- And so it does with the names that are taken. -/
theorem isTaken_add_of_ne (h : u.bindingName? ≠ some name) :
    (scope.add s u).1.isTaken s name = scope.isTaken s name := by
  rw [isTaken, isTaken, package_add, binding?_add_of_ne h]

/-- **What is bound behind an entry.** -/
theorem binding?_add_iff : (scope.add s u).1.binding? name = some b ↔
    scope.binding? name = some b ∨ scope.isTaken s name = false ∧ Binds s u name b := by
  constructor
  · intro h
    by_cases hold : scope.binding? name = some b
    · exact .inl hold
    · rcases add_cases s scope u with ⟨owner, -, heq⟩ | ⟨-, heq, -⟩ | ⟨-, n, c, hbinds, hfree, heq⟩
      · rw [heq, binding?_withGlob] at h
        exact absurd h hold
      · rw [heq] at h
        exact absurd h hold
      · rw [heq, binding?_withBinding (binding?_eq_none_of_not_isTaken hfree)] at h
        obtain ⟨rfl, rfl⟩ := h.resolve_left hold
        exact .inr ⟨hfree, hbinds⟩
  · rintro (hold | ⟨hfree, hbinds⟩)
    · exact binding?_add_of_binding? hold
    · rw [add_of_ne_glob scope hbinds.ne_glob, hbinds.bindingName]
      simp only [bind, if_neg hbinds.ne_underscore, hfree, hbinds.binding]
      exact (binding?_withBinding (binding?_eq_none_of_not_isTaken hfree)).2 (.inr ⟨rfl, rfl⟩)

/-- **What stays free behind an entry.** -/
theorem isTaken_add_eq_false_iff : (scope.add s u).1.isTaken s name = false ↔
    scope.isTaken s name = false ∧ ∀ b, ¬ Binds s u name b := by
  constructor
  · intro h
    have hnone := binding?_eq_none_of_not_isTaken h
    have hfree : scope.isTaken s name = false := by
      unfold isTaken at h ⊢
      rw [package_add] at h
      cases hbound : scope.binding? name with
      | none => simpa [hnone] using h
      | some b => exact absurd ((binding?_add_of_binding? hbound).symm.trans hnone) (by simp)
    refine ⟨hfree, fun b hb => ?_⟩
    exact absurd ((binding?_add_iff.2 (.inr ⟨hfree, hb⟩)).symm.trans hnone) (by simp)
  · rintro ⟨hfree, hnot⟩
    have hnone : (scope.add s u).1.binding? name = none := by
      refine Option.eq_none_iff_forall_ne_some.2 fun b hb => ?_
      rcases binding?_add hb with hold | hbinds
      · exact absurd (hold.symm.trans (binding?_eq_none_of_not_isTaken hfree)) (by simp)
      · exact hnot b hbinds
    unfold isTaken at hfree ⊢
    rw [package_add, hnone]
    simpa using (Bool.or_eq_false_iff.1 hfree).1

/-- **When an entry is refused** because its name is taken. -/
theorem redeclared_add_iff (h : ∀ owner, s.classify u ≠ .glob owner) :
    (∃ x ∈ (scope.add s u).2, x.kind = .redeclared) ↔
      ∃ name, u.bindingName? = some name ∧ name ≠ "_" ∧ scope.isTaken s name = true := by
  have htarget : ∀ x ∈ (bindingFor s u (s.classify u)).2, x.kind ≠ .redeclared := by
    cases s.classify u with
    | item owner item =>
      unfold bindingFor
      split <;> simp [Problem.kind]
    | _ => simp [bindingFor, Problem.kind]
  rw [add_of_ne_glob scope h]
  cases hname : u.bindingName? with
  | none =>
    refine iff_of_false ?_ (by simp)
    rintro ⟨x, hx, hkind⟩
    exact htarget x hx hkind
  | some name =>
    dsimp only
    constructor
    · rintro ⟨x, hx, hkind⟩
      have hbind := (List.mem_append.1 hx).resolve_left fun hx => htarget x hx hkind
      unfold bind at hbind
      split at hbind
      · exact absurd hbind List.not_mem_nil
      · next hlone =>
        split at hbind
        · next htaken => exact ⟨name, rfl, hlone, htaken⟩
        · exact absurd hbind List.not_mem_nil
    · rintro ⟨n, hn, hlone, htaken⟩
      obtain rfl := Option.some.inj hn
      refine ⟨.importedTwice name, List.mem_append_right _ ?_, rfl⟩
      simp [bind, hlone, htaken]

/-! ## All entries of a file -/

/-- **The first entry that binds a name.** -/
inductive BindsFirst (s : Surroundings) : List UseEntry → UseEntry → String → Binding → Prop
  | here {u r name b} (h : Binds s u name b) : BindsFirst s (u :: r) u name b
  | later {v r u name b} (hv : ∀ c, ¬ Binds s v name c) (h : BindsFirst s r u name b) :
      BindsFirst s (v :: r) u name b

theorem BindsFirst.mem {uses : List UseEntry} (h : BindsFirst s uses u name b) : u ∈ uses := by
  induction h with
  | here _ => exact List.mem_cons_self
  | later _ _ ih => exact List.mem_cons_of_mem _ ih

theorem BindsFirst.binds {uses : List UseEntry} (h : BindsFirst s uses u name b) :
    Binds s u name b := by
  induction h with
  | here h => exact h
  | later _ _ ih => exact ih

theorem exists_bindsFirst_cons {v : UseEntry} {r : List UseEntry} :
    (∃ u, BindsFirst s (v :: r) u name b) ↔
      Binds s v name b ∨ (∀ c, ¬ Binds s v name c) ∧ ∃ u, BindsFirst s r u name b := by
  constructor
  · rintro ⟨u, h | ⟨hv, h⟩⟩
    · exact .inl h
    · exact .inr ⟨hv, u, h⟩
  · rintro (h | ⟨hv, u, h⟩)
    · exact ⟨v, .here h⟩
    · exact ⟨u, .later hv h⟩

/-- Of entries that bind different names each is the first. -/
theorem AreDistinct.exists_bindsFirst_iff {uses : List UseEntry} (h : AreDistinct s uses) :
    (∃ u, BindsFirst s uses u name b) ↔ ∃ u ∈ uses, Binds s u name b := by
  induction uses with
  | nil => exact iff_of_false (fun hu => by obtain ⟨u, hu⟩ := hu; cases hu) (by simp)
  | cons v r ih =>
    rw [exists_bindsFirst_cons, ih h.tail, List.exists_mem_cons_iff]
    refine or_congr_right (and_iff_right_of_imp ?_)
    rintro ⟨u, hu, hbinds⟩ c hc
    exact h.ne_of_mem hu hbinds.bindingName hc.bindingName

theorem binding?_addAll_first_iff {file : FilePath} {uses : List UseEntry} :
    (addAll s file scope uses).value.binding? name = some b ↔
      scope.binding? name = some b ∨
        scope.isTaken s name = false ∧ ∃ u, BindsFirst s uses u name b := by
  induction uses generalizing scope with
  | nil =>
    refine (or_iff_left ?_).symm
    rintro ⟨-, u, hu⟩
    cases hu
  | cons v r ih =>
    change (addAll s file (scope.add s v).1 r).value.binding? name = some b ↔ _
    rw [ih, binding?_add_iff, isTaken_add_eq_false_iff, exists_bindsFirst_cons, or_assoc, and_assoc,
      ← and_or_left]

theorem binding?_addAll_iff {file : FilePath} {uses : List UseEntry} (h : AreDistinct s uses) :
    (addAll s file scope uses).value.binding? name = some b ↔
      scope.binding? name = some b ∨
        scope.isTaken s name = false ∧ ∃ u ∈ uses, Binds s u name b := by
  rw [binding?_addAll_first_iff, h.exists_bindsFirst_iff]

theorem redeclared_addAll_iff {file : FilePath} {uses : List UseEntry} (h : AreDistinct s uses) :
    (∃ x ∈ (addAll s file scope uses).found, x.kind = .redeclared) ↔
      ∃ u ∈ uses, ∃ name, u.bindingName? = some name ∧ name ≠ "_" ∧ scope.isTaken s name = true := by
  induction uses generalizing scope with
  | nil => simp [addAll]
  | cons v r ih =>
    have hentry : (∃ x ∈ (scope.add s v).2.map (·.inFile (scope.add s v).1.package file v.line),
        x.kind = .redeclared) ↔ ∃ x ∈ (scope.add s v).2, x.kind = .redeclared := by
      simp only [List.mem_map, exists_exists_and_eq_and]
      rfl
    rw [found_addAll_cons]
    simp only [List.mem_append, or_and_right, exists_or, List.mem_cons, exists_eq_left]
    rw [hentry, redeclared_add_iff (h.ne_glob v List.mem_cons_self), ih h.tail]
    refine or_congr_right (exists_congr fun u => and_congr_right fun hu => exists_congr fun name =>
      and_congr_right fun hname => ?_)
    rw [isTaken_add_of_ne (h.ne_of_mem hu hname)]

section File

variable {package : String} {f : SourceFile}

/-- **What a file binds**: a name that its package does not declare, as the first entry binds it. -/
theorem binding?_ofFile_first_iff : (ofFile s package f).value.binding? name = some b ↔
    s.declares package name = false ∧ ∃ u, BindsFirst s f.unit.uses u name b := by
  rw [ofFile, binding?_addAll_first_iff]
  simp [binding?, isTaken]

/-- **What a file binds** whose entries bind different names. -/
theorem binding?_ofFile_iff (h : AreDistinct s f.unit.uses) :
    (ofFile s package f).value.binding? name = some b ↔
      s.declares package name = false ∧ ∃ u ∈ f.unit.uses, Binds s u name b := by
  rw [ofFile, binding?_addAll_iff h]
  simp [binding?, isTaken]

/-- **When an entry of such a file is refused**: the package declares the name that it binds. -/
theorem redeclared_ofFile_iff (h : AreDistinct s f.unit.uses) :
    (∃ x ∈ (ofFile s package f).found, x.kind = .redeclared) ↔
      ∃ u ∈ f.unit.uses, ∃ name, u.bindingName? = some name ∧ name ≠ "_" ∧
        s.declares package name = true := by
  rw [ofFile, redeclared_addAll_iff h]
  simp [binding?, isTaken]

end File

end Scope

end ModelPool
