import ModelPool.Proofs.Check.Targets
import ModelPool.Proofs.Load.Strict

/-!
# Proofs/Check/Origins — where targets come from

    u8             a name that is known everywhere
    T, Self::Item  a path that begins with a type parameter or with Self
    std::fmt       a path that begins with one of the roots of the standard library
    p::B           a package that is loaded, or that an entry points to

A path stands for a target in one of few ways, and each of them leaves a mark on the target.

* `Scope.isGrounded_resolvePath` — what is known of every target.
-/

namespace ModelPool

/-- **What is known of a target** that a path stands for in a file. -/
def TypeTarget.IsGrounded (s : Surroundings) (generics : List String) : TypeTarget → Prop
  | .builtin name => isBuiltin name = true
  | .generic path => ∃ first rest, path = pathText (first :: rest) ∧ (first = "Self" ∨ first ∈ generics)
  | .external path => ∃ first rest, path = first :: rest ∧ externalRoots.contains first = true
  | .declared owner _ => (s.declarations? owner).isSome = true ∨ ∃ u, (s.classify u).package? = some owner
  | .unresolved _ => True

/-- **Only paths into the standard library are external.** -/
def Surroundings.IsOrderly (s : Surroundings) : Prop :=
  ∀ u, s.classify u = .external → ∃ first rest, u.path = first :: rest ∧
    externalRoots.contains first = true

namespace Scope

variable {s : Surroundings} {generics path : List String}

/-- What a binding leads to is grounded. -/
theorem isGrounded_of_binds (hs : s.IsOrderly) {u : UseEntry} {name : String} {b : Binding}
    (h : Binds s u name b) :
    match b with
    | .package owner | .item owner _ => (s.classify u).package? = some owner
    | .external path => ∃ first rest, path = first :: rest ∧ externalRoots.contains first = true
    | .unresolved => True := by
  have hb := h.binding
  cases hu : s.classify u <;> rw [hu] at hb <;> subst hb <;> simp only [bindingFor, UseTarget.package?]
  exact hs u hu

theorem isGrounded_declaredIn {package name : String}
    (h : (s.declarations? package).isSome = true ∨ ∃ u, (s.classify u).package? = some package) :
    (declaredIn s package name).1.IsGrounded s generics := h

theorem isGrounded_resolveQualified : (resolveQualified s path).1.IsGrounded s generics := by
  unfold resolveQualified
  split
  · trivial
  · dsimp only
    split
    · next hloaded => exact isGrounded_declaredIn (.inl hloaded)
    · trivial

section File

variable (hs : s.IsOrderly) {package : String} {f : SourceFile}

include hs

theorem isGrounded_resolveName {name : String} :
    ((ofFile s package f).value.resolveName s name).1.IsGrounded s generics := by
  unfold resolveName
  split
  · next hown => exact .inl (isSome_declarations?_of_declaresType hown)
  · split
    · next owner item hbound =>
      obtain ⟨u, -, hbinds⟩ := exists_binds_of_binding? hbound
      exact .inr ⟨u, isGrounded_of_binds hs hbinds⟩
    · next external hbound =>
      obtain ⟨u, -, hbinds⟩ := exists_binds_of_binding? hbound
      exact isGrounded_of_binds hs hbinds
    · trivial
    · trivial
    · split
      · next hbuiltin => exact hbuiltin
      · split
        · next owner hglob =>
          exact .inl (isSome_declarations?_of_declaresType (globWith?_eq_some_iff.1 hglob).1)
        · trivial

theorem isGrounded_resolveJoined {first : String} {rest : List String} :
    ((ofFile s package f).value.resolveJoined s first rest).1.IsGrounded s generics := by
  unfold resolveJoined
  dsimp only
  split
  · next hexternal => exact ⟨first, rest, rfl, hexternal⟩
  · split
    · next owner hbound =>
      obtain ⟨u, -, hbinds⟩ := exists_binds_of_binding? hbound
      split
      · exact isGrounded_declaredIn (.inr ⟨u, isGrounded_of_binds hs hbinds⟩)
      · exact isGrounded_resolveQualified
    · next above hbound =>
      obtain ⟨u, -, hbinds⟩ := exists_binds_of_binding? hbound
      obtain ⟨head, tail, rfl, hhead⟩ := isGrounded_of_binds hs hbinds
      exact ⟨head, tail ++ rest, rfl, hhead⟩
    · trivial
    · trivial
    · exact isGrounded_resolveQualified

/-- **What is known of every target** that a path stands for in a file. -/
theorem isGrounded_resolvePath :
    ((ofFile s package f).value.resolvePath s generics path).1.IsGrounded s generics := by
  unfold resolvePath
  split
  · trivial
  · next first rest =>
    split
    · next hgeneric => exact ⟨first, rest, rfl, hgeneric⟩
    · split
      · exact isGrounded_resolveName hs
      · exact isGrounded_resolveJoined hs

end File

end Scope

/-! ## Loads -/

namespace Program

variable {t : FileTree} {roots : SourceRoots} {imports : ImportSet}

theorem isOrderly_surroundingsOf : (surroundingsOf t roots imports).IsOrderly := by
  intro u hu
  change roots.classify t u = .external at hu
  unfold SourceRoots.classify at hu
  split at hu
  · simp at hu
  · next first rest hpath =>
    split at hu
    · next hexternal => exact ⟨first, rest, hpath, hexternal⟩
    · split at hu
      · simp at hu
      · split at hu
        · simp at hu
        · split at hu <;> simp at hu

/-- **The package of a target is found.** -/
theorem isSome_find?_of_isGrounded {generics : List String} {owner name : String}
    (h : (TypeTarget.declared owner name).IsGrounded (surroundingsOf t roots imports) generics) :
    (roots.find? t owner).isSome = true := by
  rcases h with hloaded | ⟨u, hu⟩
  · obtain ⟨ds, hds⟩ := Option.isSome_iff_exists.1 hloaded
    obtain ⟨info, hinfo, -⟩ := Option.map_eq_some_iff.1 hds
    obtain ⟨⟨dir, hdir, -⟩, -⟩ := mem_loaded_iff.1 (lookup_loaded_iff.1 hinfo)
    rw [hdir]
    rfl
  · exact SourceRoots.isSome_find?_of_package? hu

end Program

end ModelPool
