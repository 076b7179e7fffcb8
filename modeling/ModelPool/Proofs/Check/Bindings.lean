import ModelPool.Proofs.Check.Uses

/-!
# Proofs/Check/Bindings — which names a file binds

    use b::Item as I;      binds I, unless the name is taken, which is a problem
    use b::*;              binds nothing, and lends the types of b

A name is bound by an entry of the file, and in a file whose entries have no problems each entry with a
name binds it.  The globs are the packages of glob entries.

* `add_cases` — what an entry does to a scope.
* `exists_binds_of_binding?` — what is bound is bound by an entry.
* `binding?_of_binds` — what entries without problems bind is bound.
* `mem_globs_iff` — the globs of a file.
-/

namespace ModelPool

namespace Scope

variable {s : Surroundings} {scope : Scope} {u : UseEntry} {name : String} {b : Binding}

/-- **An entry binds a name.** -/
structure Binds (s : Surroundings) (u : UseEntry) (name : String) (b : Binding) : Prop where
  bindingName : u.bindingName? = some name
  ne_underscore : name ≠ "_"
  ne_glob : ∀ owner, s.classify u ≠ .glob owner
  binding : (bindingFor s u (s.classify u)).1 = b

/-! ## One entry -/

/-- The scope with one more glob, each of them once. -/
def withGlob (scope : Scope) (owner : String) : Scope :=
  if owner ∈ scope.globs then scope else { scope with globs := scope.globs ++ [owner] }

/-- The scope with one more binding. -/
def withBinding (scope : Scope) (name : String) (b : Binding) : Scope :=
  { scope with bindings := scope.bindings ++ [(name, b)] }

theorem binding?_withGlob (owner : String) : (scope.withGlob owner).binding? = scope.binding? := by
  unfold withGlob
  split <;> rfl

theorem mem_globs_withGlob {owner other : String} :
    other ∈ (scope.withGlob owner).globs ↔ other ∈ scope.globs ∨ other = owner := by
  unfold withGlob
  split
  · next h => exact ⟨.inl, fun hor => hor.elim id fun heq => heq ▸ h⟩
  · simp

theorem binding?_withBinding {other : String} {c : Binding} (hnew : scope.binding? name = none) :
    (scope.withBinding name b).binding? other = some c ↔
      scope.binding? other = some c ∨ other = name ∧ b = c := by
  unfold binding? withBinding at *
  rw [List.lookup_append]
  by_cases hname : other = name
  · subst hname
    simp [hnew]
  · have hfalse : (other == name) = false := by simpa using hname
    simp [hname, List.lookup_cons, hfalse]

/-- **What an entry does to a scope**: it lends the types of a package, or leaves the scope as it is,
or binds a name that is free.  Where an entry without problems leaves the scope, it has no name to
bind. -/
theorem add_cases (s : Surroundings) (scope : Scope) (u : UseEntry) :
    (∃ owner, s.classify u = .glob owner ∧ (scope.add s u).1 = scope.withGlob owner) ∨
    ((∀ owner, s.classify u ≠ .glob owner) ∧ (scope.add s u).1 = scope ∧
      ((scope.add s u).2 = [] → ∀ name b, ¬ Binds s u name b)) ∨
    ((∀ owner, s.classify u ≠ .glob owner) ∧ ∃ name b, Binds s u name b ∧
      scope.isTaken s name = false ∧ (scope.add s u).1 = scope.withBinding name b) := by
  by_cases hglob : ∃ owner, s.classify u = .glob owner
  · obtain ⟨owner, howner⟩ := hglob
    refine .inl ⟨owner, howner, ?_⟩
    simp only [add, howner, withGlob]
    split <;> rfl
  have hne : ∀ owner, s.classify u ≠ .glob owner := fun owner h => hglob ⟨owner, h⟩
  rw [add_of_ne_glob scope hne]
  cases hname : u.bindingName? with
  | none =>
    refine .inr (.inl ⟨hne, rfl, fun _ name b hb => ?_⟩)
    exact absurd (hname.symm.trans hb.bindingName) (by simp)
  | some name =>
    dsimp only
    unfold bind
    split
    · next hlone =>
      refine .inr (.inl ⟨hne, rfl, fun _ other b hb => hb.ne_underscore ?_⟩)
      rw [← hlone]
      exact (Option.some.inj (hname.symm.trans hb.bindingName)).symm
    · next hlone =>
      split
      · refine .inr (.inl ⟨hne, rfl, fun hnil => ?_⟩)
        simp at hnil
      · next htaken =>
        exact .inr (.inr ⟨hne, name, _, ⟨hname, hlone, hne, rfl⟩, by simpa using htaken, rfl⟩)

theorem binding?_eq_none_of_not_isTaken (h : scope.isTaken s name = false) :
    scope.binding? name = none := by
  rw [isTaken, Bool.or_eq_false_iff] at h
  simpa using h.2

/-- **What is bound behind an entry** was bound before, or is bound by the entry. -/
theorem binding?_add (h : (scope.add s u).1.binding? name = some b) :
    scope.binding? name = some b ∨ Binds s u name b := by
  rcases add_cases s scope u with ⟨owner, -, heq⟩ | ⟨-, heq, -⟩ | ⟨-, n, c, hbinds, hfree, heq⟩
  · rw [heq, binding?_withGlob] at h
    exact .inl h
  · rw [heq] at h
    exact .inl h
  · rw [heq, binding?_withBinding (binding?_eq_none_of_not_isTaken hfree)] at h
    rcases h with hold | ⟨rfl, rfl⟩
    · exact .inl hold
    · exact .inr hbinds

/-- What is bound stays bound. -/
theorem binding?_add_of_binding? (h : scope.binding? name = some b) :
    (scope.add s u).1.binding? name = some b := by
  rcases add_cases s scope u with ⟨owner, -, heq⟩ | ⟨-, heq, -⟩ | ⟨-, n, c, -, hfree, heq⟩
  · rw [heq, binding?_withGlob, h]
  · rw [heq, h]
  · rw [heq, binding?_withBinding (binding?_eq_none_of_not_isTaken hfree)]
    exact .inl h

/-- And what an entry without problems binds is bound. -/
theorem binding?_add_of_binds (hadd : (scope.add s u).2 = []) (h : Binds s u name b) :
    (scope.add s u).1.binding? name = some b := by
  rcases add_cases s scope u with ⟨owner, howner, -⟩ | ⟨-, -, hnone⟩ | ⟨-, n, c, hbinds, hfree, heq⟩
  · exact absurd howner (h.ne_glob owner)
  · exact absurd h (hnone hadd name b)
  · rw [heq, binding?_withBinding (binding?_eq_none_of_not_isTaken hfree)]
    exact .inr ⟨Option.some.inj (h.bindingName.symm.trans hbinds.bindingName),
      hbinds.binding.symm.trans h.binding⟩

theorem mem_globs_add {owner : String} : owner ∈ (scope.add s u).1.globs ↔
    owner ∈ scope.globs ∨ s.classify u = .glob owner := by
  rcases add_cases s scope u with ⟨other, hother, heq⟩ | ⟨hne, heq, -⟩ | ⟨hne, n, c, -, -, heq⟩
  · rw [heq, mem_globs_withGlob, hother, UseTarget.glob.injEq, eq_comm (a := owner)]
  · rw [heq, or_iff_left (hne owner)]
  · rw [heq, or_iff_left (hne owner)]
    rfl

/-! ## All entries of a file -/

theorem exists_binds_of_addAll {file : FilePath} {uses : List UseEntry}
    (h : (addAll s file scope uses).value.binding? name = some b) :
    scope.binding? name = some b ∨ ∃ u ∈ uses, Binds s u name b := by
  induction uses generalizing scope with
  | nil => exact .inl h
  | cons u r ih =>
    change (addAll s file (scope.add s u).1 r).value.binding? name = some b at h
    rcases ih h with hadd | ⟨v, hv, hbinds⟩
    · exact (binding?_add hadd).imp_right fun hbinds => ⟨u, List.mem_cons_self, hbinds⟩
    · exact .inr ⟨v, List.mem_cons_of_mem _ hv, hbinds⟩

theorem binding?_addAll {file : FilePath} {uses : List UseEntry} (h : scope.binding? name = some b) :
    (addAll s file scope uses).value.binding? name = some b := by
  induction uses generalizing scope with
  | nil => exact h
  | cons u r ih => exact ih (binding?_add_of_binding? h)

theorem binding?_addAll_of_binds {file : FilePath} {uses : List UseEntry}
    (hfound : (addAll s file scope uses).found = []) (hu : u ∈ uses) (h : Binds s u name b) :
    (addAll s file scope uses).value.binding? name = some b := by
  induction uses generalizing scope with
  | nil => exact absurd hu List.not_mem_nil
  | cons v r ih =>
    rw [found_addAll_cons, List.append_eq_nil_iff, List.map_eq_nil_iff] at hfound
    rcases List.mem_cons.1 hu with rfl | hu
    · have hbound := binding?_add_of_binds hfound.1 h
      change (addAll s file (scope.add s u).1 r).value.binding? name = some b
      exact binding?_addAll hbound
    · exact ih hfound.2 hu

theorem mem_globs_addAll {file : FilePath} {uses : List UseEntry} {owner : String} :
    owner ∈ (addAll s file scope uses).value.globs ↔
      owner ∈ scope.globs ∨ ∃ u ∈ uses, s.classify u = .glob owner := by
  induction uses generalizing scope with
  | nil => simp [addAll]
  | cons u r ih =>
    change owner ∈ (addAll s file (scope.add s u).1 r).value.globs ↔ _
    rw [ih, mem_globs_add, or_assoc]
    simp only [List.mem_cons, exists_eq_or_imp]

section File

variable {package : String} {f : SourceFile}

/-- **What a file binds is bound by one of its entries.** -/
theorem exists_binds_of_binding? (h : (ofFile s package f).value.binding? name = some b) :
    ∃ u ∈ f.unit.uses, Binds s u name b :=
  (exists_binds_of_addAll h).resolve_left (by simp [binding?])

/-- **What the entries of a file bind is bound**, if they have no problems. -/
theorem binding?_of_binds (hfound : (ofFile s package f).found = []) (hu : u ∈ f.unit.uses)
    (h : Binds s u name b) : (ofFile s package f).value.binding? name = some b :=
  binding?_addAll_of_binds hfound hu h

/-- **The globs of a file.** -/
theorem mem_globs_iff {owner : String} : owner ∈ (ofFile s package f).value.globs ↔
    ∃ u ∈ f.unit.uses, s.classify u = .glob owner := by
  rw [ofFile, mem_globs_addAll, or_iff_right List.not_mem_nil]

/-- **A name is bound to an item exactly if an entry of the file imports the item under it.** -/
theorem binding?_eq_item_iff (hfound : (ofFile s package f).found = []) {owner item : String} :
    (ofFile s package f).value.binding? name = some (.item owner item) ↔ name ≠ "_" ∧
      ∃ u ∈ f.unit.uses, u.bindingName? = some name ∧ s.classify u = .item owner item := by
  constructor
  · intro h
    obtain ⟨u, hu, hbinds⟩ := exists_binds_of_binding? h
    refine ⟨hbinds.ne_underscore, u, hu, hbinds.bindingName, ?_⟩
    have hbinding := hbinds.binding
    cases htarget : s.classify u <;> rw [htarget] at hbinding <;> simp [bindingFor] at hbinding
    simp [hbinding]
  · rintro ⟨hne, u, hu, hname, hitem⟩
    exact binding?_of_binds hfound hu ⟨hname, hne, by simp [hitem], by rw [hitem, bindingFor]⟩

end File

end Scope

end ModelPool
