import ModelPool.Proofs.Check.Origins
import ModelPool.Proofs.Pool.Imports

/-!
# Proofs/Pool/Capture — what the types of a pool stand for when they are read again

    String      known everywhere      the pool's own, if it has a model   String
    Vec         known everywhere      no type, if a package is imported as   Vec
    shop::B     the package   a::shop   if its import is bound

A target is written by the text of a path, and when the file is read again, the path stands for the target
unless another name comes before: a type that the pool declares, or the name of a package that the file
imports.

* `target_segments_iff` — when a path stands for the target that it has been written for.
* `Program.isReread` — how the file of a model is read again.
-/

namespace ModelPool

open Text Source

/-- **What the import of a package points to**: the package, unless its path begins like a path into the
standard library or like a relative one. -/
def importTarget (package : String) : UseTarget :=
  match splitPath package with
  | [] => .unresolved
  | first :: _ =>
    if externalRoots.contains first then .external
    else if relativeRoots.contains first then .unsupported
    else .package package

theorem importTarget_cases (package : String) : importTarget package = .package package ∨
    importTarget package = .external ∨ importTarget package = .unsupported ∨
      importTarget package = .unresolved := by
  unfold importTarget
  split
  · simp
  · split
    · simp
    · split <;> simp

/-- An entry that is no glob points to none. -/
theorem SourceRoots.classify_ne_glob {t : FileTree} {roots : SourceRoots} {u : UseEntry}
    (h : u.glob = false) (owner : String) : roots.classify t u ≠ .glob owner := by
  unfold classify
  rw [h]
  split
  · simp
  · split
    · simp
    · split
      · simp
      · split
        · simp
        · split <;> simp_all

/-- **A package that is found is what its import points to.** -/
theorem SourceRoots.classify_import {t : FileTree} {roots : SourceRoots} {package : String} {u : UseEntry}
    (h : Emitter.IsImportPath package) (hfound : (roots.find? t package).isSome = true)
    (hpath : u.path = splitPath package) (hglob : u.glob = false) :
    roots.classify t u = importTarget package := by
  obtain ⟨htext, hne, -⟩ := h
  unfold classify importTarget
  rw [hpath]
  cases hsplit : splitPath package with
  | nil => rfl
  | cons first rest =>
    rw [hsplit] at htext
    have hlongest := roots.packagePrefix?_self (List.cons_ne_nil first rest) (htext ▸ hfound)
    dsimp only
    split
    · rfl
    · split
      · rfl
      · simp only [hlongest, hglob, List.drop_length, htext]

/-- **An import depends on its package**, or on nothing. -/
theorem PackageInfo.eq_of_dependency? {t : FileTree} {roots : SourceRoots} {package other : String} {u : UseEntry}
    (h : Emitter.IsImportPath package) (hfound : (roots.find? t package).isSome = true)
    (hpath : u.path = splitPath package) (hglob : u.glob = false)
    (hother : dependency? t roots u = some other) : other = package := by
  unfold dependency? at hother
  rw [SourceRoots.classify_import h hfound hpath hglob] at hother
  rcases importTarget_cases package with htarget | htarget | htarget | htarget
  · rw [htarget] at hother
    exact (Option.some.inj hother).symm
  · simp [htarget] at hother
  · simp [htarget] at hother
  · -- what points nowhere is told under its own path
    rw [htarget] at hother
    exact (Option.some.inj hother).symm.trans ((congrArg pathText hpath).trans h.1)

namespace Emitter

variable {e : Emitter} {m : MergedModel} {s : Surroundings} {f : SourceFile} {package name : String}

/-- **The import of a package is bound**: the pool does not declare the name. -/
def IsBound (e : Emitter) (s : Surroundings) (package : String) : Prop :=
  e.aliasOf package ≠ "_" ∧ s.declares e.pool (e.aliasOf package) = false

/-- **A package is reached by its name**: through its import, or as the package whose path the name is. -/
def IsReached (e : Emitter) (s : Surroundings) (package : String) : Prop :=
  e.IsBound s package ∧ importTarget package = .package package ∨
    ¬ e.IsBound s package ∧ e.aliasOf package = package ∧ (s.declarations? package).isSome = true

/-- **A target is kept**: what is written for it in the file of a model stands for it again. -/
def IsKept (e : Emitter) (s : Surroundings) (m : MergedModel) : TypeTarget → Prop
  | .builtin name => s.declaresType e.pool name = false ∧
      ∀ package ∈ e.importedPackages m, e.IsBound s package → e.aliasOf package ≠ name
  | .generic _ => True
  | .external path => path.length ≠ 1
  | .unresolved _ => False
  | .declared package name =>
      if package = e.pool then name ≠ "Self" ∧ s.declaresType package name = true
      else e.IsReached s package

/-- **How the file of a model is read again**: it declares the model, a single name stands for a type of the
pool exactly if the pool declares it, an import is refused exactly if the pool declares its name, and a field has
its type again exactly if all targets in the type are kept. -/
structure IsReread (e : Emitter) (s : Surroundings) (m : MergedModel) (f : SourceFile) : Prop where
  declares : e.Declares m (e.expressions m) f.unit
  own_iff : ∀ name, name ≠ "Self" →
    ((f.checkIn s e.pool).target [] [name] = .declared e.pool name ↔ s.declaresType e.pool name = true)
  builtin_iff : ∀ name, isBuiltin name = true →
    ((f.checkIn s e.pool).target [] [name] = .builtin name ↔ e.IsKept s m (.builtin name))
  redeclared_iff : (∃ x ∈ (Scope.ofFile s e.pool f).found, x.kind = .redeclared) ↔
    ∃ package ∈ e.importedPackages m,
      e.aliasOf package ≠ "_" ∧ s.declares e.pool (e.aliasOf package) = true
  type_eq_iff : ∀ field ∈ m.fields, ∀ line,
    ((f.checkIn s e.pool).resolve [] line (e.expression field.type)).value = field.type ↔
      ∀ target ∈ ResolvedType.targets field.type, e.IsKept s m target

/-! ## The scope of the file -/

section Models

variable {pool poolName : String} {models : List MergedModel} {fs : List (MergedField × TypeExpr)}
  (hm : m ∈ models)
  (hpaths : ∀ p ∈ (ofModels pool poolName models).importedPackages m, IsImportPath p)
  (hfile : (ofModels pool poolName models).Declares m fs f.unit)
  (hs : ∀ u : UseEntry, u.glob = false → ∀ owner, s.classify u ≠ .glob owner)
  (hclassify : ∀ p ∈ (ofModels pool poolName models).importedPackages m, ∀ u,
    (ofModels pool poolName models).IsEntry p u → s.classify u = importTarget p)

/-- The names of packages are no words with a meaning. -/
theorem aliasOf_not_reserved (hm : m ∈ models)
    (h : package ∈ (ofModels pool poolName models).importedPackages m) :
    (ofModels pool poolName models).aliasOf package ∉ reservedAliases :=
  fun hmem => aliasOf_not_mem (importedPackages_subset hm h) (List.mem_append_right _ hmem)

include hfile hs in
/-- The file has no globs. -/
theorem globWith?_eq_none : (Scope.ofFile s pool f).value.globWith? s name = none := by
  rw [Scope.globWith?, List.find?_eq_none]
  intro owner howner
  obtain ⟨u, hu, hglob⟩ := Scope.mem_globs_iff.1 howner
  exact absurd hglob (hs u (hfile.exists_package hu).choose_spec.2.glob owner)

include hm hpaths hfile hs

/-- **A name is free** in the file exactly if no package is bound to it. -/
theorem binding?_eq_none_iff : (Scope.ofFile s pool f).value.binding? name = none ↔
    ∀ p ∈ (ofModels pool poolName models).importedPackages m,
      (ofModels pool poolName models).IsBound s p → (ofModels pool poolName models).aliasOf p ≠ name := by
  rw [← not_iff_not, ← ne_eq, Option.ne_none_iff_exists']
  simp only [binding?_iff hm hpaths hfile hs]
  push Not
  constructor
  · rintro ⟨b, p, hp, rfl, hlone, hfree, -⟩
    exact ⟨p, hp, ⟨hlone, hfree⟩, rfl⟩
  · rintro ⟨p, hp, ⟨hlone, hfree⟩, rfl⟩
    obtain ⟨u, hu, hentry⟩ := hfile.exists_entry hp
    exact ⟨_, p, hp, rfl, hlone, hfree, u, hu, hentry, rfl⟩

include hclassify in
/-- What a name is bound to. -/
theorem exists_of_binding? {b : Binding} (h : (Scope.ofFile s pool f).value.binding? name = some b) :
    ∃ p ∈ (ofModels pool poolName models).importedPackages m,
      (ofModels pool poolName models).IsBound s p ∧ (ofModels pool poolName models).aliasOf p = name ∧
        ((b = .package p ∧ importTarget p = .package p) ∨
          (b = .external (splitPath p) ∧ importTarget p ≠ .package p) ∨
            (b = .unresolved ∧ importTarget p ≠ .package p)) := by
  obtain ⟨p, hp, rfl, hlone, hfree, u, -, hentry, rfl⟩ := (binding?_iff hm hpaths hfile hs).1 h
  refine ⟨p, hp, ⟨hlone, hfree⟩, rfl, ?_⟩
  rw [hclassify p hp u hentry]
  rcases importTarget_cases p with h | h | h | h <;> rw [h] <;> simp [Scope.bindingFor, hentry.path]

/-! ## Single names -/

include hclassify in
/-- **What a single name stands for** in the file: a type of the pool; else nothing or a path of the standard
library, if a package is bound to it; else what is known everywhere. -/
theorem target_single_cases (hself : name ≠ "Self") :
    (s.declaresType pool name = true ∧ (f.checkIn s pool).target [] [name] = .declared pool name) ∨
    (s.declaresType pool name = false ∧ (Scope.ofFile s pool f).value.binding? name ≠ none ∧
      ((f.checkIn s pool).target [] [name] = .unresolved [name] ∨
        ∃ path, (f.checkIn s pool).target [] [name] = .external path)) ∨
    (s.declaresType pool name = false ∧ (Scope.ofFile s pool f).value.binding? name = none ∧
      (f.checkIn s pool).target [] [name] =
        if isBuiltin name then .builtin name else .unresolved [name]) := by
  have hpackage : (Scope.ofFile s pool f).value.package = pool := Scope.package_addAll _ _ _ _
  have htarget : (f.checkIn s pool).target [] [name] =
      ((Scope.ofFile s pool f).value.resolveName s name).1 := by
    change ((Scope.ofFile s pool f).value.resolvePath s [] [name]).1 = _
    simp [Scope.resolvePath, hself]
  rw [htarget, Scope.resolveName, hpackage]
  cases hown : s.declaresType pool name with
  | true => exact .inl ⟨rfl, rfl⟩
  | false =>
    refine .inr ?_
    cases hbound : (Scope.ofFile s pool f).value.binding? name with
    | none =>
      refine .inr ⟨rfl, rfl, ?_⟩
      rw [globWith?_eq_none hfile hs]
      by_cases hbuiltin : isBuiltin name = true <;> simp [hbuiltin]
    | some b =>
      refine .inl ⟨rfl, by simp, ?_⟩
      obtain ⟨p, -, -, -, h⟩ := exists_of_binding? hm hpaths hfile hs hclassify hbound
      rcases h with ⟨rfl, -⟩ | ⟨rfl, -⟩ | ⟨rfl, -⟩ <;> simp

include hclassify in
/-- **A type that the pool declares comes before everything** but `Self`. -/
theorem target_eq_own_iff (hself : name ≠ "Self") : (f.checkIn s pool).target [] [name] =
    .declared pool name ↔ s.declaresType pool name = true := by
  rcases target_single_cases hm hpaths hfile hs hclassify hself with ⟨hown, h⟩ | ⟨hown, -, h | ⟨path, h⟩⟩ |
    ⟨hown, -, h⟩
  · simp [hown, h]
  · simp [hown, h]
  · simp [hown, h]
  · rw [h, hown]
    split <;> simp

include hclassify in
/-- **A name that is known everywhere stands for itself** exactly if nothing in the pool captures it. -/
theorem target_eq_builtin_iff (hbuiltin : isBuiltin name = true) :
    (f.checkIn s pool).target [] [name] = .builtin name ↔
      (ofModels pool poolName models).IsKept s m (.builtin name) := by
  have hself : name ≠ "Self" := by
    rintro rfl
    exact absurd hbuiltin (by decide)
  change _ ↔ s.declaresType pool name = false ∧ _
  rw [← binding?_eq_none_iff hm hpaths hfile hs]
  rcases target_single_cases hm hpaths hfile hs hclassify hself with ⟨hown, h⟩ | ⟨hown, hbound, h | ⟨path, h⟩⟩ |
    ⟨hown, hfree, h⟩
  · simp [hown, h]
  · simp [hown, hbound, h]
  · simp [hown, hbound, h]
  · simp [hown, hfree, h, hbuiltin]

include hclassify in
/-- **A root of the standard library is no type** of its own. -/
theorem target_ne_external (hexternal : externalRoots.contains name = true) :
    (f.checkIn s pool).target [] [name] ≠ .external [name] := by
  have hreserved : ∀ n ∈ externalRoots, n ∈ reservedAliases ∧ n ≠ "Self" := by decide
  obtain ⟨hname, hself⟩ := hreserved name (by simpa using hexternal)
  have hfree : (Scope.ofFile s pool f).value.binding? name = none :=
    (binding?_eq_none_iff hm hpaths hfile hs).2 fun p hp _ heq =>
      aliasOf_not_reserved hm hp (heq ▸ hname)
  rcases target_single_cases hm hpaths hfile hs hclassify hself with ⟨-, h⟩ | ⟨-, hbound, -⟩ | ⟨-, -, h⟩
  · simp [h]
  · exact absurd hfree hbound
  · rw [h]
    split <;> simp

/-! ## Paths -/

include hclassify in
/-- What the name of an imported package is bound to. -/
theorem binding?_aliasOf (hp : package ∈ (ofModels pool poolName models).importedPackages m) {b : Binding}
    (h : (Scope.ofFile s pool f).value.binding? ((ofModels pool poolName models).aliasOf package) = some b) :
    (ofModels pool poolName models).IsBound s package ∧
      ((b = .package package ∧ importTarget package = .package package) ∨
        (b = .external (splitPath package) ∧ importTarget package ≠ .package package) ∨
          (b = .unresolved ∧ importTarget package ≠ .package package)) := by
  obtain ⟨p, hp', hbound, heq, hb⟩ := exists_of_binding? hm hpaths hfile hs hclassify h
  obtain rfl : p = package :=
    eq_of_aliasOf_eq (importedPackages_subset hm hp') (importedPackages_subset hm hp) heq
  exact ⟨hbound, hb⟩

include hclassify in
/-- **A package is found under its name** exactly if it is reached by it. -/
theorem target_eq_outside_iff (hp : package ∈ (ofModels pool poolName models).importedPackages m) :
    (f.checkIn s pool).target [] [(ofModels pool poolName models).aliasOf package, name] =
      .declared package name ↔ (ofModels pool poolName models).IsReached s package := by
  have hreserved := @aliasOf_not_reserved m package pool poolName models hm hp
  have hself : (ofModels pool poolName models).aliasOf package ≠ "Self" := fun heq =>
    hreserved (heq ▸ by decide)
  have hexternal : externalRoots.contains ((ofModels pool poolName models).aliasOf package) = false := by
    have hroots : ∀ n ∈ externalRoots, n ∈ reservedAliases := by decide
    rw [Bool.eq_false_iff]
    exact fun hmem => hreserved (hroots _ (by simpa using hmem))
  have htarget : (f.checkIn s pool).target [] [(ofModels pool poolName models).aliasOf package, name] =
      ((Scope.ofFile s pool f).value.resolveJoined s
        ((ofModels pool poolName models).aliasOf package) [name]).1 := by
    change ((Scope.ofFile s pool f).value.resolvePath s [] [_, name]).1 = _
    simp [Scope.resolvePath, hself]
  have hjoined : pathText [(ofModels pool poolName models).aliasOf package] =
      (ofModels pool poolName models).aliasOf package := by simp [pathText]
  rw [htarget, Scope.resolveJoined, if_neg (by rw [hexternal]; simp), IsReached]
  cases hb : (Scope.ofFile s pool f).value.binding? ((ofModels pool poolName models).aliasOf package) with
  | none =>
    -- the entry is refused, so the name is the path of a package
    have hrefused : ¬ (ofModels pool poolName models).IsBound s package := fun hbound =>
      (binding?_eq_none_iff hm hpaths hfile hs).1 hb package hp hbound rfl
    simp only [hrefused, false_and, false_or, not_false_iff, true_and, Scope.resolveQualified,
      List.getLast?_cons_cons, List.getLast?_singleton, List.dropLast_cons_cons, List.dropLast_singleton, hjoined]
    constructor
    · intro h
      split at h
      · next hloaded =>
        obtain ⟨hsame, -⟩ := TypeTarget.declared.inj h
        exact ⟨hsame, hsame ▸ hloaded⟩
      · exact absurd h (by simp)
    · rintro ⟨hsame, hloaded⟩
      rw [hsame, if_pos hloaded, Scope.declaredIn]
  | some b =>
    obtain ⟨hbound, hb⟩ := binding?_aliasOf hm hpaths hfile hs hclassify hp hb
    rcases hb with ⟨rfl, htarget⟩ | ⟨rfl, htarget⟩ | ⟨rfl, htarget⟩
    · simp [hbound, htarget, Scope.declaredIn]
    · simp [hbound, htarget]
    · simp [hbound, htarget]

/-! ## All targets -/

omit hm hpaths hfile hs in
/-- What begins with `Self` stands for the struct itself. -/
theorem target_generic {path : String} (h : (TypeTarget.generic path).IsGrounded s []) :
    (f.checkIn s pool).target [] ((ofModels pool poolName models).segments (.generic path)) =
      .generic path := by
  obtain ⟨first, rest, rfl, hfirst⟩ := h
  obtain rfl : first = "Self" := hfirst.resolve_right List.not_mem_nil
  obtain ⟨more, hmore⟩ : ∃ more, (splitColons (pathText ("Self" :: rest)).toList).map String.ofList =
      "Self" :: more := by
    have hcolon : ':' ∉ "Self".toList := by decide
    rw [toList_pathText_cons]
    cases rest with
    | nil => exact ⟨[], by rw [List.flatMap_nil, List.append_nil, splitColons_of_not_mem hcolon]; rfl⟩
    | cons second r =>
      rw [List.flatMap_cons, List.cons_append, List.cons_append, splitColons_append hcolon]
      exact ⟨_, rfl⟩
  have hjoined := pathText_splitColons (pathText ("Self" :: rest))
  rw [segments]
  rw [hmore] at hjoined ⊢
  change ((Scope.ofFile s pool f).value.resolvePath s [] ("Self" :: more)).1 = _
  simp [Scope.resolvePath, hjoined]

include hclassify in
/-- **When what is written for a target stands for it again.** -/
theorem target_segments_iff {before : Surroundings} {field : MergedField} (hfield : field ∈ m.fields)
    {target : TypeTarget} (htarget : target ∈ ResolvedType.targets field.type)
    (hresolved : target.IsResolved) (hgrounded : target.IsGrounded before []) :
    (f.checkIn s pool).target [] ((ofModels pool poolName models).segments target) = target ↔
      (ofModels pool poolName models).IsKept s m target := by
  cases target with
  | builtin name => exact target_eq_builtin_iff hm hpaths hfile hs hclassify hgrounded
  | generic path => exact iff_of_true (target_generic hgrounded) trivial
  | unresolved path => exact absurd rfl (hresolved path)
  | external path =>
    obtain ⟨first, rest, rfl, hexternal⟩ := hgrounded
    cases rest with
    | nil => exact iff_of_false (target_ne_external hm hpaths hfile hs hclassify hexternal) (by simp [IsKept])
    | cons second rest =>
      have hself : first ≠ "Self" := by
        rintro rfl
        exact absurd hexternal (by decide)
      refine iff_of_true ?_ (by simp [IsKept])
      change ((Scope.ofFile s pool f).value.resolvePath s [] (first :: second :: rest)).1 = _
      have hmem : first ∈ externalRoots := by simpa using hexternal
      simp [Scope.resolvePath, hself, Scope.resolveJoined, hmem]
  | declared package name =>
    rw [segments, IsKept]
    split
    · next hpool =>
      by_cases hself : name = "Self"
      · refine iff_of_false ?_ (fun h => h.1 hself)
        change ((Scope.ofFile s pool f).value.resolvePath s [] [name]).1 ≠ _
        simp [Scope.resolvePath, hself]
      · obtain rfl : package = pool := hpool
        rw [target_eq_own_iff hm hpaths hfile hs hclassify hself]
        simp [hself]
    · next hpool =>
      exact target_eq_outside_iff hm hpaths hfile hs hclassify
        (mem_outsidePackages.2 ⟨hpool, _, List.mem_map_of_mem hfield, name, htarget⟩)

end Models

end Emitter

/-! ## The types of the models -/

namespace Program

open Emitter

variable {t u : FileTree} {roots : SourceRoots} {imports : ImportSet} {mode : LoadMode} {p : Program}
  {pool poolName : String} {models : List MergedModel} {m : MergedModel} {s : Surroundings} {f : SourceFile}

/-- **The packages that a model imports are found.** -/
theorem isSome_find?_of_importedPackages (h : load t roots imports mode = .ok p)
    (hmodels : p.merge pool = .ok models) (hm : m ∈ models) {package : String}
    (hp : package ∈ (ofModels pool poolName models).importedPackages m) :
    (roots.find? t package).isSome = true := by
  obtain ⟨-, type, htype, name, htarget⟩ := mem_outsidePackages.1 hp
  obtain ⟨f, hf, rfl⟩ := List.mem_map.1 htype
  exact isSome_find?_of_isGrounded (isGrounded_of_merge h hmodels hm hf htarget)

/-- **How the file of a model is read again** in a tree where the packages are still found. -/
theorem isReread (h : load t roots imports mode = .ok p) (hmodels : p.merge pool = .ok models)
    (hresolved : AllResolved models) (hm : m ∈ models)
    (hpaths : ∀ p ∈ (ofModels pool poolName models).importedPackages m, IsImportPath p)
    (hfile : (ofModels pool poolName models).Declares m ((ofModels pool poolName models).expressions m) f.unit)
    (hfound : ∀ path, (roots.find? t path).isSome = true → (roots.find? u path).isSome = true)
    (hs : s.classify = roots.classify u) : (ofModels pool poolName models).IsReread s m f := by
  have hglob : ∀ u : UseEntry, u.glob = false → ∀ owner, s.classify u ≠ .glob owner := by
    intro u hu owner
    rw [hs]
    exact SourceRoots.classify_ne_glob hu owner
  have hclassify : ∀ p ∈ (ofModels pool poolName models).importedPackages m, ∀ u,
      (ofModels pool poolName models).IsEntry p u → s.classify u = importTarget p := by
    intro package hp u hentry
    rw [hs]
    exact SourceRoots.classify_import (hpaths package hp)
      (hfound package (isSome_find?_of_importedPackages h hmodels hm hp)) hentry.path hentry.glob
  refine ⟨hfile, fun name hself => target_eq_own_iff hm hpaths hfile hglob hclassify hself,
    fun name hbuiltin => target_eq_builtin_iff hm hpaths hfile hglob hclassify hbuiltin,
    Emitter.redeclared_iff hm hpaths hfile hglob, fun field hfield line => ?_⟩
  rw [FileCheck.value_resolve, expression, Ty.map_map_eq_self_iff]
  exact forall₂_congr fun target htarget => target_segments_iff hm hpaths hfile hglob hclassify hfield htarget
    (hresolved _ _ _ ⟨m, hm, rfl, field, hfield, rfl, rfl⟩ target htarget)
    (isGrounded_of_merge h hmodels hm hfield htarget)

end Program

end ModelPool
