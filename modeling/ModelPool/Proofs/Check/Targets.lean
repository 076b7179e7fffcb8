import ModelPool.Proofs.Check.Bindings
import ModelPool.Proofs.Check.Shadowing
import ModelPool.Proofs.Check.Signatures

/-!
# Proofs/Check/Targets — what an accepted path stands for

    B               own type, glob        a type is declared
    B               bound to an item      something is declared, a type or not
    p::B, a::p::B                         a type is declared

A path that is accepted and stands for a declaration stands for a type, unless it is a name that the file
binds to an item: of such a name it is only known that it is declared.

* `declaresType_or_item` — what an accepted path stands for.
* `target_of_item` — what a bound name stands for.
-/

namespace ModelPool

namespace Scope

variable {s : Surroundings} {scope : Scope} {generics path : List String} {owner name : String}

/-! ## Declared targets -/

/-- The package of a type that is declared has been loaded. -/
theorem isSome_declarations?_of_declaresType (h : s.declaresType owner name = true) :
    (s.declarations? owner).isSome = true := by
  unfold Surroundings.declaresType at h
  cases hd : s.declarations? owner with
  | none => simp [hd] at h
  | some d => rfl

theorem declaresType_of_declaredIn {package item : String}
    (htarget : (declaredIn s package item).1 = .declared owner name)
    (hnil : (declaredIn s package item).2 = []) : s.declaresType owner name = true := by
  obtain ⟨rfl, rfl⟩ : package = owner ∧ item = name := by simpa [declaredIn] using htarget
  simpa [declaredIn] using hnil

theorem declaresType_of_resolveQualified
    (htarget : (resolveQualified s path).1 = .declared owner name)
    (hnil : (resolveQualified s path).2 = []) : s.declaresType owner name = true := by
  unfold resolveQualified at htarget hnil
  cases hlast : path.getLast? with
  | none => simp [hlast] at htarget
  | some last =>
    simp only [hlast] at htarget hnil
    split at htarget
    · next hloaded =>
      rw [if_pos hloaded] at hnil
      exact declaresType_of_declaredIn htarget hnil
    · simp at htarget

theorem declaresType_of_resolveJoined {first : String} {rest : List String}
    (htarget : (scope.resolveJoined s first rest).1 = .declared owner name)
    (hnil : (scope.resolveJoined s first rest).2 = []) : s.declaresType owner name = true := by
  unfold resolveJoined at htarget hnil
  dsimp only at htarget hnil
  split at htarget
  · simp at htarget
  · next hexternal =>
    rw [if_neg hexternal] at hnil
    cases hbound : scope.binding? first with
    | none =>
      simp only [hbound] at htarget hnil
      exact declaresType_of_resolveQualified htarget hnil
    | some b =>
      simp only [hbound] at htarget hnil
      cases b with
      | package path =>
        match rest with
        | [last] => exact declaresType_of_declaredIn htarget hnil
        | [] => exact declaresType_of_resolveQualified htarget hnil
        | _ :: _ :: _ => exact declaresType_of_resolveQualified htarget hnil
      | item above item => simp at htarget
      | external above => simp at htarget
      | unresolved => simp at htarget

theorem declaresType_or_item_of_resolveName {n : String}
    (htarget : (scope.resolveName s n).1 = .declared owner name) :
    s.declaresType owner name = true ∨ scope.binding? n = some (.item owner name) := by
  unfold resolveName at htarget
  split at htarget
  · next hown =>
    obtain ⟨rfl, rfl⟩ : scope.package = owner ∧ n = name := by simpa using htarget
    exact .inl hown
  · split at htarget
    · next above item hbound =>
      obtain ⟨rfl, rfl⟩ : above = owner ∧ item = name := by simpa using htarget
      exact .inr hbound
    · simp at htarget
    · simp at htarget
    · simp at htarget
    · split at htarget
      · simp at htarget
      · split at htarget
        · next package hglob =>
          obtain ⟨rfl, rfl⟩ : package = owner ∧ n = name := by simpa using htarget
          exact .inl (globWith?_eq_some_iff.1 hglob).1
        · simp at htarget

/-- **What an accepted path stands for** is a type, unless the path is a name that the file binds to an
item. -/
theorem declaresType_or_item (hnil : (scope.resolvePath s generics path).2 = [])
    (htarget : (scope.resolvePath s generics path).1 = .declared owner name) :
    s.declaresType owner name = true ∨
      ∃ n, path = [n] ∧ n ≠ "Self" ∧ n ∉ generics ∧ scope.binding? n = some (.item owner name) := by
  unfold resolvePath at hnil htarget
  split at htarget
  · simp at htarget
  · next first rest =>
    split at htarget
    · simp at htarget
    · next hgeneric =>
      simp only [if_neg hgeneric] at hnil
      rw [not_or] at hgeneric
      cases rest with
      | nil =>
        refine (declaresType_or_item_of_resolveName htarget).imp_right fun hbound => ?_
        exact ⟨first, rfl, hgeneric.1, hgeneric.2, hbound⟩
      | cons second rest => exact .inl (declaresType_of_resolveJoined htarget hnil)

/-! ## Bound names are free -/

theorem declares_eq_false_of_addAll {file : FilePath} {uses : List UseEntry} {n : String} {b : Binding}
    (h : (addAll s file scope uses).value.binding? n = some b) (hnew : scope.binding? n = none) :
    s.declares scope.package n = false := by
  induction uses generalizing scope with
  | nil => exact absurd (h.symm.trans hnew) (by simp)
  | cons u r ih =>
    change (addAll s file (scope.add s u).1 r).value.binding? n = some b at h
    rw [← package_add s scope u]
    cases hadd : (scope.add s u).1.binding? n with
    | none => exact ih h hadd
    | some c =>
      rw [package_add]
      rcases add_cases s scope u with ⟨other, -, heq⟩ | ⟨-, heq, -⟩ | ⟨-, m, d, -, hfree, heq⟩
      · rw [heq, binding?_withGlob, hnew] at hadd
        simp at hadd
      · rw [heq, hnew] at hadd
        simp at hadd
      · rw [heq, binding?_withBinding (binding?_eq_none_of_not_isTaken hfree), hnew] at hadd
        obtain ⟨rfl, -⟩ := hadd.resolve_left (by simp)
        rw [isTaken, Bool.or_eq_false_iff] at hfree
        exact hfree.1

/-- **A name that a file binds is not declared by its package.** -/
theorem declares_eq_false_of_binding? {package : String} {f : SourceFile} {n : String} {b : Binding}
    (h : (ofFile s package f).value.binding? n = some b) : s.declares package n = false :=
  @declares_eq_false_of_addAll s ⟨package, [], []⟩ f.path f.unit.uses n b h rfl

/-- And so it is none of its types. -/
theorem declaresType_eq_false_of_binding? {package : String} {f : SourceFile} {n : String} {b : Binding}
    (h : (ofFile s package f).value.binding? n = some b) : s.declaresType package n = false := by
  have hfree := declares_eq_false_of_binding? h
  unfold Surroundings.declares at hfree
  unfold Surroundings.declaresType
  cases hd : s.declarations? package with
  | none => rfl
  | some d =>
    simp only [hd, Declarations.contains, Bool.or_eq_false_iff] at hfree
    exact hfree.1

/-- **A name that a file binds to an item is resolved to it**, whatever sort of thing it is. -/
theorem resolveName_of_item {package : String} {f : SourceFile} {n : String}
    (h : (ofFile s package f).value.binding? n = some (.item owner name)) :
    (ofFile s package f).value.resolveName s n = (.declared owner name, []) := by
  have hpackage : (ofFile s package f).value.package = package := package_addAll _ _ _ _
  simp [resolveName, hpackage, declaresType_eq_false_of_binding? h, h]

/-- So it stands for it. -/
theorem target_of_item {package : String} {f : SourceFile} {n : String} (hself : n ≠ "Self")
    (hgeneric : n ∉ generics)
    (h : (ofFile s package f).value.binding? n = some (.item owner name)) :
    (f.checkIn s package).target generics [n] = .declared owner name := by
  have hnot : ¬ (n = "Self" ∨ n ∈ generics) := not_or.2 ⟨hself, hgeneric⟩
  change ((ofFile s package f).value.resolvePath s generics [n]).1 = _
  simp only [resolvePath, if_neg hnot, resolveName_of_item h]

end Scope

end ModelPool
