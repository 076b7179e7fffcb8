import ModelPool.Program.Check

/-!
# Proofs/Check/Uses — what the checker says about `use` entries

The problems of a file are those of its entries, of its items and of its blocks, one after the other.  So
a file without problems has entries without problems, and each of these points to something that is
declared.

* `found_checkAll` — the problems of a package are those of its files.
* `resolves_of_found_addAll` — entries without problems resolve.
-/

namespace ModelPool

namespace SourceFile

variable {s : Surroundings} {package : String}

/-- The problems of a package are those of its files. -/
theorem found_checkAll (s : Surroundings) (package : String) (files : List SourceFile) :
    (checkAll s package files).found = files.flatMap fun f => (f.check s package).found := by
  induction files with
  | nil => rfl
  | cons f r ih => simp [checkAll, ih]

/-- And the problems of a file begin with those of its entries. -/
theorem found_check (s : Surroundings) (package : String) (f : SourceFile) :
    let c : FileCheck := ⟨s, (Scope.ofFile s package f).value, f.path⟩
    (f.check s package).found =
      (Scope.ofFile s package f).found ++ (c.items f.unit.items).found ++
        (c.impls f.unit.impls).found := by
  simp [check, List.append_assoc]

end SourceFile

namespace Scope

variable {s : Surroundings} {scope : Scope} {u : UseEntry}

/-! ## One entry -/

/-- An entry that is no glob binds a name, if it has one. -/
theorem add_of_ne_glob (scope : Scope) (h : ∀ owner, s.classify u ≠ .glob owner) :
    scope.add s u =
      match u.bindingName? with
      | none => (scope, (bindingFor s u (s.classify u)).2)
      | some name =>
        ((scope.bind s name (bindingFor s u (s.classify u)).1).1,
          (bindingFor s u (s.classify u)).2 ++ (scope.bind s name (bindingFor s u (s.classify u)).1).2) := by
  unfold add
  split
  · next owner howner => exact absurd howner (h owner)
  · rfl

/-- Its problems begin with those of its target. -/
theorem problems_bindingFor_of_add (h : ∀ owner, s.classify u ≠ .glob owner)
    (hadd : (scope.add s u).2 = []) : (bindingFor s u (s.classify u)).2 = [] := by
  rw [add_of_ne_glob scope h] at hadd
  cases hname : u.bindingName? with
  | none =>
    rw [hname] at hadd
    exact hadd
  | some name =>
    rw [hname] at hadd
    exact (List.append_eq_nil_iff.1 hadd).1

/-- **What an entry points to is there**: an item is declared by a loaded package, and the entry is
neither relative nor left without a target. -/
structure Resolves (s : Surroundings) (u : UseEntry) : Prop where
  declares : ∀ {owner name}, s.classify u = .item owner name → s.declares owner name = true
  ne_unresolved : s.classify u ≠ .unresolved
  ne_unsupported : s.classify u ≠ .unsupported

/-- An entry without problems resolves. -/
theorem resolves_of_add (hadd : (scope.add s u).2 = []) : Resolves s u where
  declares := by
    intro owner name hitem
    have h := problems_bindingFor_of_add (by simp [hitem]) hadd
    rw [hitem, bindingFor] at h
    cases hd : s.declares owner name with
    | true => rfl
    | false => simp [hd] at h
  ne_unresolved := by
    intro hu
    have h := problems_bindingFor_of_add (by simp [hu]) hadd
    rw [hu, bindingFor] at h
    exact absurd h (by simp)
  ne_unsupported := by
    intro hu
    have h := problems_bindingFor_of_add (by simp [hu]) hadd
    rw [hu, bindingFor] at h
    exact absurd h (by simp)

/-! ## All entries of a file -/

/-- The scope behind one more entry. -/
theorem found_addAll_cons (s : Surroundings) (file : FilePath) (scope : Scope) (u : UseEntry)
    (r : List UseEntry) : (addAll s file scope (u :: r)).found =
      (scope.add s u).2.map (·.inFile (scope.add s u).1.package file u.line) ++
        (addAll s file (scope.add s u).1 r).found := rfl

/-- **Entries without problems resolve.** -/
theorem resolves_of_found_addAll {file : FilePath} {uses : List UseEntry}
    (h : (addAll s file scope uses).found = []) : ∀ u ∈ uses, Resolves s u := by
  induction uses generalizing scope with
  | nil => exact fun u hu => absurd hu List.not_mem_nil
  | cons u r ih =>
    rw [found_addAll_cons, List.append_eq_nil_iff, List.map_eq_nil_iff] at h
    exact List.forall_mem_cons.2 ⟨resolves_of_add h.1, ih h.2⟩

end Scope

/-- And so do the entries of a file without problems. -/
theorem SourceFile.resolves_of_found_check {s : Surroundings} {package : String} {f : SourceFile}
    (h : (f.check s package).found = []) : ∀ u ∈ f.unit.uses, Scope.Resolves s u := by
  rw [found_check, List.append_eq_nil_iff, List.append_eq_nil_iff] at h
  exact Scope.resolves_of_found_addAll h.1.1

end ModelPool
