import ModelPool.Proofs.Check.Fragments

/-!
# Proofs/Check/Shadowing — names when other packages declare more

    use pool::*;      declares nothing yet      later declares B
    use b::*;         declares B                declares B

When packages come to be loaded or declare more types, what a file binds stays, and so does each path that
had a target, but for one case: a single name that a file takes from a glob is lost to a glob that stands
before it and now declares the name as well.

* `value_ofFile_eq` — a file binds the same names.
* `target_eq_iff` — when a path keeps its target.
* `type_eq_iff` — when a type does.
-/

namespace ModelPool

/-! ## Surroundings -/

/-- **Other packages are loaded or declare more types**, while one package stays as it is. -/
structure Surroundings.Extends (s s' : Surroundings) (package : String) : Prop where
  classify : s'.classify = s.classify
  own : s'.declarations? package = s.declarations? package
  declaresType : ∀ {owner name}, s.declaresType owner name = true → s'.declaresType owner name = true
  loaded : ∀ {owner}, (s.declarations? owner).isSome = true → (s'.declarations? owner).isSome = true

namespace Scope

variable {s s' : Surroundings} {scope : Scope}

/-! ## What a file binds -/

theorem package_add (s : Surroundings) (scope : Scope) (u : UseEntry) :
    (scope.add s u).1.package = scope.package := by
  unfold add
  split
  · split <;> rfl
  · dsimp only
    split
    · rfl
    · unfold bind
      split
      · rfl
      · split <;> rfl

/-- An entry binds the same. -/
theorem add_eq (h : s.Extends s' scope.package) (u : UseEntry) :
    (scope.add s' u).1 = (scope.add s u).1 := by
  have htaken : ∀ name, scope.isTaken s' name = scope.isTaken s name := by
    intro name
    simp only [isTaken, Surroundings.declares, h.own]
  have hbinding : ∀ target, (bindingFor s' u target).1 = (bindingFor s u target).1 := by
    rintro ⟨⟩ <;> rfl
  have hbind : ∀ name b, scope.bind s' name b = scope.bind s name b := by
    intro name b
    simp only [bind, htaken]
  unfold add
  rw [h.classify]
  split
  · rfl
  · dsimp only
    split
    · rfl
    · rw [hbinding, hbind]

theorem value_addAll_eq (h : s.Extends s' scope.package) (file : FilePath) (uses : List UseEntry) :
    (addAll s' file scope uses).value = (addAll s file scope uses).value := by
  induction uses generalizing scope with
  | nil => rfl
  | cons u r ih =>
    have hnext : s.Extends s' (scope.add s u).1.package := by
      rw [package_add]
      exact h
    change (addAll s' file (scope.add s' u).1 r).value = (addAll s file (scope.add s u).1 r).value
    rw [add_eq h, ih hnext]

/-- **A file binds the same names.** -/
theorem value_ofFile_eq {package : String} (h : s.Extends s' package) (f : SourceFile) :
    (ofFile s' package f).value = (ofFile s package f).value :=
  @value_addAll_eq s s' ⟨package, [], []⟩ h f.path f.unit.uses

theorem package_addAll (s : Surroundings) (file : FilePath) (scope : Scope) (uses : List UseEntry) :
    (addAll s file scope uses).value.package = scope.package := by
  induction uses generalizing scope with
  | nil => rfl
  | cons u r ih =>
    change (addAll s file (scope.add s u).1 r).value.package = _
    rw [ih, package_add]

/-! ## What a path stands for -/

/-- **The glob that a name is taken from stands behind one** that declares it in other surroundings. -/
def GlobLost (s s' : Surroundings) (scope : Scope) (name : String) : Prop :=
  ∃ before owner after, scope.globs = before ++ owner :: after ∧
    s.declaresType owner name = true ∧ (∀ g ∈ before, s.declaresType g name = false) ∧
    ∃ g ∈ before, s'.declaresType g name = true

/-- **A name that a file takes from a glob is lost to an earlier glob** in other surroundings. -/
structure Shadowed (s s' : Surroundings) (scope : Scope) (generics : List String) (name : String) :
    Prop where
  not_generic : ¬ (name = "Self" ∨ name ∈ generics)
  not_own : ¬ s.declaresType scope.package name = true
  not_bound : scope.binding? name = none
  not_builtin : ¬ isBuiltin name = true
  lost : GlobLost s s' scope name

theorem globWith?_eq_some_iff {name owner : String} :
    scope.globWith? s name = some owner ↔ s.declaresType owner name = true ∧
      ∃ before after, scope.globs = before ++ owner :: after ∧
        ∀ g ∈ before, s.declaresType g name = false := by
  simp only [globWith?, List.find?_eq_some_iff_append, Bool.not_eq_true']

/-- A name is taken from the same glob exactly if that is not lost. -/
theorem globWith?_eq_iff (h : s.Extends s' scope.package) {name owner : String}
    (hglob : scope.globWith? s name = some owner) :
    scope.globWith? s' name = some owner ↔ ¬ GlobLost s s' scope name := by
  obtain ⟨howner, before, after, hglobs, hbefore⟩ := globWith?_eq_some_iff.1 hglob
  constructor
  · rintro hglob' ⟨before', owner', after', hglobs', howner', hbefore', g, hg, hdeclares⟩
    obtain ⟨-, before₂, after₂, hglobs₂, hbefore₂⟩ := globWith?_eq_some_iff.1 hglob'
    have hsame : owner' = owner := by
      have hfound := globWith?_eq_some_iff.2 ⟨howner', before', after', hglobs', hbefore'⟩
      exact Option.some.inj (hfound.symm.trans hglob)
    subst hsame
    -- the owner is found behind `g` in either surroundings, so it stands before itself
    rcases List.append_eq_append_iff.1 (hglobs'.symm.trans hglobs₂) with
      ⟨more, hmore, -⟩ | ⟨more, hmore, hrest⟩
    · have hfree := hbefore₂ g (by rw [hmore]; exact List.mem_append_left _ hg)
      exact absurd (hdeclares.symm.trans hfree) (by simp)
    · cases more with
      | nil =>
        have hfree := hbefore₂ g (by rwa [hmore, List.append_nil] at hg)
        exact absurd (hdeclares.symm.trans hfree) (by simp)
      | cons first more =>
        obtain rfl : owner' = first := by simpa using (List.cons.inj hrest).1
        have hfree := hbefore' owner' (by rw [hmore]; simp)
        exact absurd (howner.symm.trans hfree) (by simp)
  · intro hkept
    refine globWith?_eq_some_iff.2 ⟨h.declaresType howner, before, after, hglobs, fun g hg => ?_⟩
    rw [Bool.eq_false_iff]
    intro hdeclares
    exact hkept ⟨before, owner, after, hglobs, howner, hbefore, g, hg, hdeclares⟩

theorem resolveQualified_eq (h : s.Extends s' scope.package) {path : List String}
    (hres : ∀ ps, (resolveQualified s path).1 ≠ .unresolved ps) :
    (resolveQualified s' path).1 = (resolveQualified s path).1 := by
  unfold resolveQualified at hres ⊢
  cases hlast : path.getLast? with
  | none => rfl
  | some name =>
    simp only [hlast] at hres ⊢
    split at hres
    · next hloaded =>
      rw [if_pos (h.loaded hloaded), if_pos hloaded]
      rfl
    · exact absurd rfl (hres path)

/-- A path of several segments keeps its target. -/
theorem resolveJoined_eq (h : s.Extends s' scope.package) {first : String} {rest : List String}
    (hres : ∀ ps, (scope.resolveJoined s first rest).1 ≠ .unresolved ps) :
    (scope.resolveJoined s' first rest).1 = (scope.resolveJoined s first rest).1 := by
  unfold resolveJoined at hres ⊢
  dsimp only at hres ⊢
  split
  · rfl
  · next hexternal =>
    rw [if_neg hexternal] at hres
    cases hbound : scope.binding? first with
    | none =>
      simp only [hbound] at hres ⊢
      exact resolveQualified_eq h hres
    | some b =>
      simp only [hbound] at hres ⊢
      cases b with
      | package owner =>
        match rest with
        | [name] => rfl
        | [] => exact resolveQualified_eq h hres
        | _ :: _ :: _ => exact resolveQualified_eq h hres
      | _ => rfl

/-- **A single name keeps its target exactly if no earlier glob has come to declare it.** -/
theorem resolveName_eq_iff (h : s.Extends s' scope.package) {generics : List String} {name : String}
    (hgeneric : ¬ (name = "Self" ∨ name ∈ generics))
    (hres : ∀ ps, (scope.resolveName s name).1 ≠ .unresolved ps) :
    (scope.resolveName s' name).1 = (scope.resolveName s name).1 ↔
      ¬ Shadowed s s' scope generics name := by
  have hown : s'.declaresType scope.package name = s.declaresType scope.package name := by
    simp only [Surroundings.declaresType, h.own]
  unfold resolveName at hres ⊢
  rw [hown]
  by_cases hself : s.declaresType scope.package name = true
  · rw [if_pos hself, if_pos hself]
    exact iff_of_true rfl fun hsh => hsh.not_own hself
  rw [if_neg hself, if_neg hself]
  rw [if_neg hself] at hres
  cases hbound : scope.binding? name with
  | some b =>
    have hsame : ¬ Shadowed s s' scope generics name := by
      intro hsh
      exact absurd (hbound.symm.trans hsh.not_bound) (by simp)
    cases b <;> exact iff_of_true rfl hsame
  | none =>
    simp only [hbound] at hres ⊢
    by_cases hbuiltin : isBuiltin name = true
    · rw [if_pos hbuiltin, if_pos hbuiltin]
      exact iff_of_true rfl fun hsh => hsh.not_builtin hbuiltin
    rw [if_neg hbuiltin, if_neg hbuiltin]
    rw [if_neg hbuiltin] at hres
    cases hglob : scope.globWith? s name with
    | none =>
      rw [hglob] at hres
      exact absurd rfl (hres [name])
    | some owner =>
      have hlost : Shadowed s s' scope generics name ↔ GlobLost s s' scope name :=
        ⟨Shadowed.lost, fun hlost => ⟨hgeneric, hself, hbound, hbuiltin, hlost⟩⟩
      rw [hlost, ← globWith?_eq_iff h hglob]
      cases scope.globWith? s' name with
      | none => simp
      | some package => simp

/-- **A path that has a target keeps it**, unless it is a name that is lost to an earlier glob. -/
theorem resolvePath_eq_iff (h : s.Extends s' scope.package) {generics path : List String}
    (hres : ∀ ps, (scope.resolvePath s generics path).1 ≠ .unresolved ps) :
    (scope.resolvePath s' generics path).1 = (scope.resolvePath s generics path).1 ↔
      ∀ name, path = [name] → ¬ Shadowed s s' scope generics name := by
  cases path with
  | nil => exact absurd rfl (hres [])
  | cons first rest =>
    dsimp only [resolvePath] at hres ⊢
    by_cases hgeneric : first = "Self" ∨ first ∈ generics
    · rw [if_pos hgeneric, if_pos hgeneric]
      refine iff_of_true rfl fun name hname hlost => ?_
      obtain ⟨rfl, -⟩ := List.cons.inj hname
      exact hlost.not_generic hgeneric
    · rw [if_neg hgeneric, if_neg hgeneric]
      rw [if_neg hgeneric] at hres
      cases rest with
      | nil => simpa using resolveName_eq_iff h hgeneric hres
      | cons second rest =>
        exact iff_of_true (resolveJoined_eq h hres) fun name hname => by simp at hname

end Scope

/-! ## Types of a file -/

/-- The target stands for something. -/
def TypeTarget.IsResolved (target : TypeTarget) : Prop := ∀ path, target ≠ .unresolved path

section File

variable {s s' : Surroundings} {package : String} {f : SourceFile}

theorem scope_checkIn (h : s.Extends s' package) (f : SourceFile) :
    (f.checkIn s' package).scope = (f.checkIn s package).scope :=
  Scope.value_ofFile_eq h f

theorem target_eq_iff (h : s.Extends s' package) {generics path : List String}
    (hres : ((f.checkIn s package).target generics path).IsResolved) :
    (f.checkIn s' package).target generics path = (f.checkIn s package).target generics path ↔
      ∀ name, path = [name] → ¬ (f.checkIn s package).scope.Shadowed s s' generics name := by
  have hpackage : (f.checkIn s package).scope.package = package := Scope.package_addAll _ _ _ _
  have htarget : (f.checkIn s' package).target generics path =
      ((f.checkIn s package).scope.resolvePath s' generics path).1 := by
    rw [FileCheck.target, scope_checkIn h]
    rfl
  rw [htarget]
  exact Scope.resolvePath_eq_iff (hpackage.symm ▸ h) hres

/-- **A type that is resolved keeps its targets**, unless one of its names is lost to an earlier
glob. -/
theorem type_eq_iff (h : s.Extends s' package) {generics : List String} {t : TypeExpr}
    (hres : ∀ target ∈ ResolvedType.targets (t.map ((f.checkIn s package).target generics)),
      target.IsResolved) :
    t.map ((f.checkIn s' package).target generics) = t.map ((f.checkIn s package).target generics) ↔
      ∀ name, [name] ∈ t.names → ¬ (f.checkIn s package).scope.Shadowed s s' generics name := by
  rw [ResolvedType.targets, Ty.names_map] at hres
  rw [Ty.map_eq_map_iff]
  constructor
  · intro hsame name hname
    exact (target_eq_iff h (hres _ (List.mem_map_of_mem hname))).1 (hsame _ hname) name rfl
  · intro hkept path hpath
    refine (target_eq_iff h (hres _ (List.mem_map_of_mem hpath))).2 fun name hname => ?_
    exact hkept name (hname ▸ hpath)

end File

end ModelPool
