import ModelPool.Proofs.Check.Entries
import ModelPool.Proofs.Pool.Rendering

/-!
# Proofs/Pool/Imports — what the file of a model imports

    a::shop           use a::shop;               binds  shop
    b::shop           use b::shop as shop_2;     binds  shop_2
    c::MODEL_NAMES    use c::MODEL_NAMES;        binds nothing: the pool declares the name

The file of a model has an entry for each package that its types refer to.  No two of these entries bind one
name, so the only names that are in their way are those that the pool declares.

* `redeclared_iff` — when an entry is refused.
* `binding?_iff` — what the file binds.
-/

namespace ModelPool

open Text Source

namespace Emitter

variable {e : Emitter} {m : MergedModel} {fs : List (MergedField × TypeExpr)} {s : Surroundings}
  {f : SourceFile} {package name : String}

/-! ## Entries -/

/-- The name that an entry with some content binds. -/
def boundName? : List String × Option String × Bool → Option String
  | (path, asName, glob) => if glob then none else asName <|> path.getLast?

/-- **The import of a package binds the package's name.** -/
theorem boundName?_import (h : IsImportPath package) :
    boundName? (splitPath package, e.newName? package, false) = some (e.aliasOf package) := by
  rw [boundName?, if_neg (by simp), h.getLast?, newName?]
  split
  · next hsame => simp [hsame]
  · simp

/-- **The entry imports a package.** -/
def IsEntry (e : Emitter) (package : String) (u : UseEntry) : Prop :=
  u.content = (splitPath package, e.newName? package, false)

namespace IsEntry

variable {u : UseEntry} (h : e.IsEntry package u)

include h

theorem path : u.path = splitPath package := congrArg Prod.fst h

theorem glob : u.glob = false := congrArg (fun content => content.2.2) h

theorem bindingName? (hpath : IsImportPath package) : u.bindingName? = some (e.aliasOf package) :=
  (congrArg boundName? h).trans (boundName?_import hpath)

end IsEntry

/-- The entries of a model's file import its packages. -/
theorem Declares.exists_package (h : e.Declares m fs f.unit) {u : UseEntry} (hu : u ∈ f.unit.uses) :
    ∃ package ∈ e.importedPackages m, e.IsEntry package u := by
  obtain ⟨package, hpackage, hcontent⟩ := List.mem_map.1 (h.uses ▸ List.mem_map_of_mem hu)
  exact ⟨package, hpackage, hcontent.symm⟩

theorem Declares.exists_entry (h : e.Declares m fs f.unit) (hpackage : package ∈ e.importedPackages m) :
    ∃ u ∈ f.unit.uses, e.IsEntry package u := by
  have hmem := List.mem_map_of_mem (f := fun p => (splitPath p, e.newName? p, false)) hpackage
  rw [← h.uses] at hmem
  exact List.mem_map.1 hmem

/-! ## The scope of the file -/

section Models

variable {pool poolName : String} {models : List MergedModel}

theorem importedPackages_subset (hm : m ∈ models)
    (h : package ∈ (ofModels pool poolName models).importedPackages m) :
    package ∈ outsidePackages pool (models.flatMap fun m => m.fields.map MergedField.type) := by
  obtain ⟨hne, t, ht, name, htarget⟩ := mem_outsidePackages.1 h
  exact mem_outsidePackages.2 ⟨hne, t, List.mem_flatMap.2 ⟨m, hm, ht⟩, name, htarget⟩

variable (hm : m ∈ models)
  (hpaths : ∀ p ∈ (ofModels pool poolName models).importedPackages m, IsImportPath p)
  (hfile : (ofModels pool poolName models).Declares m fs f.unit)
  (hs : ∀ u : UseEntry, u.glob = false → ∀ owner, s.classify u ≠ .glob owner)

include hm hpaths hfile hs

/-- **No two entries bind one name.** -/
theorem areDistinct_uses : Scope.AreDistinct s f.unit.uses where
  names := by
    have hnames : f.unit.uses.map UseEntry.bindingName? =
        ((ofModels pool poolName models).importedPackages m).map fun p =>
          some ((ofModels pool poolName models).aliasOf p) := by
      calc f.unit.uses.map UseEntry.bindingName?
        _ = (f.unit.uses.map UseEntry.content).map boundName? := by rw [List.map_map]; rfl
        _ = _ := by
          rw [hfile.uses, List.map_map]
          exact List.map_congr_left fun p hp => boundName?_import (hpaths p hp)
    rw [hnames]
    refine (nodup_outsidePackages _ _).map_on fun p hp q hq heq => ?_
    exact eq_of_aliasOf_eq (importedPackages_subset hm hp) (importedPackages_subset hm hq)
      (Option.some.inj heq)
  ne_glob := fun u hu => hs u (hfile.exists_package hu).choose_spec.2.glob

/-- **An entry is refused** exactly if the pool declares the name of its package. -/
theorem redeclared_iff : (∃ x ∈ (Scope.ofFile s pool f).found, x.kind = .redeclared) ↔
    ∃ package ∈ (ofModels pool poolName models).importedPackages m,
      (ofModels pool poolName models).aliasOf package ≠ "_" ∧
        s.declares pool ((ofModels pool poolName models).aliasOf package) = true := by
  rw [Scope.redeclared_ofFile_iff (areDistinct_uses hm hpaths hfile hs)]
  constructor
  · rintro ⟨u, hu, name, hname, hlone, hdeclared⟩
    obtain ⟨package, hpackage, hentry⟩ := hfile.exists_package hu
    obtain rfl : (ofModels pool poolName models).aliasOf package = name :=
      Option.some.inj ((hentry.bindingName? (hpaths package hpackage)).symm.trans hname)
    exact ⟨package, hpackage, hlone, hdeclared⟩
  · rintro ⟨package, hpackage, hlone, hdeclared⟩
    obtain ⟨u, hu, hentry⟩ := hfile.exists_entry hpackage
    exact ⟨u, hu, _, hentry.bindingName? (hpaths package hpackage), hlone, hdeclared⟩

/-- **What the file binds**: the name of each package that the pool does not declare. -/
theorem binding?_iff {b : Binding} : (Scope.ofFile s pool f).value.binding? name = some b ↔
    ∃ package ∈ (ofModels pool poolName models).importedPackages m,
      (ofModels pool poolName models).aliasOf package = name ∧ name ≠ "_" ∧
        s.declares pool name = false ∧ ∃ u ∈ f.unit.uses, (ofModels pool poolName models).IsEntry package u ∧
          (Scope.bindingFor s u (s.classify u)).1 = b := by
  rw [Scope.binding?_ofFile_iff (areDistinct_uses hm hpaths hfile hs)]
  constructor
  · rintro ⟨hfree, u, hu, hbinds⟩
    obtain ⟨package, hpackage, hentry⟩ := hfile.exists_package hu
    obtain rfl : (ofModels pool poolName models).aliasOf package = name :=
      Option.some.inj ((hentry.bindingName? (hpaths package hpackage)).symm.trans hbinds.bindingName)
    exact ⟨package, hpackage, rfl, hbinds.ne_underscore, hfree, u, hu, hentry, hbinds.binding⟩
  · rintro ⟨package, hpackage, rfl, hlone, hfree, u, hu, hentry, hb⟩
    exact ⟨hfree, u, hu, hentry.bindingName? (hpaths package hpackage), hlone, hs u hentry.glob, hb⟩

end Models

end Emitter

end ModelPool
