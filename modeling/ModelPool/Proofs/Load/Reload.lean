import ModelPool.Proofs.Check.Shadowing
import ModelPool.Proofs.Load.Growth
import ModelPool.Proofs.Load.Strict

/-!
# Proofs/Load/Reload — loading again when a package has grown

    tree ──load──▸ packages              tree grows in one directory
      │                                            │
      ▾                                            ▾
    larger tree ──load, with the pool──▸ packages, and the pool

The second load lists what the first one does, as long as the package that has grown imports nothing else.
The packages elsewhere are the same, and around them more is declared.

* `mem_loaded_grown` — what is listed again.
* `mem_loaded_of_import` — what is imported has been listed.
* `mem_loaded_of_grown` — what has been listed before.
* `extends_surroundingsOf` — the surroundings of a package elsewhere.
-/

namespace ModelPool

open Text FileTree

namespace Program

/-- **Two loads**: of a tree, and of the tree when it has grown in one directory, now also from the path
of the pool. -/
structure Reload (d : Place) (t u : FileTree) (imports imports' : ImportSet) (pool : String) :
    Prop where
  grows : Grows d t u
  source : t.HoldsSource d
  subset : ∀ entry ∈ imports.paths, entry ∈ imports'.paths
  entries : ∀ entry ∈ imports'.paths, entry ∈ imports.paths ∨ trimmed entry = pool

/-- **The package that has grown imports nothing else**: whatever stands in its directory or behind the
path of the pool imports the pool or what is listed by the first load. -/
def ImportsListed (d : Place) (pool : String) (loaded loaded' : List (String × PackageInfo)) : Prop :=
  ∀ x ∈ loaded', (x.1 = pool ∨ x.2.dir = .ofPlace d) →
    ∀ q ∈ x.2.imports, q = pool ∨ q ∈ loaded.map Prod.fst

namespace Reload

variable {d : Place} {t u : FileTree} {roots : SourceRoots} {imports imports' : ImportSet}
  {pool : String}

/-! ## Packages that are listed again -/

/-- A package is still there, with its files and imports. -/
theorem exists_hasPackage (h : Reload d t u imports imports' pool) {path : String}
    {info : PackageInfo} (hinfo : roots.HasPackage t path info) :
    ∃ new, roots.HasPackage u path new ∧ new.dir = info.dir ∧
      (∀ f ∈ info.files, f ∈ new.files) ∧ ∀ q ∈ info.imports, q ∈ new.imports := by
  by_cases hdir : info.dir = .ofPlace d
  · exact h.grows.exists_grown h.source hinfo hdir
  · exact ⟨info, (h.grows.hasPackage_iff h.source hdir).2 hinfo, rfl, fun _ hf => hf, fun _ hq => hq⟩

theorem imports_mono (h : Reload d t u imports imports' pool) {p q : String}
    (hpq : roots.Imports t p q) : roots.Imports u p q := by
  obtain ⟨info, hinfo, hq⟩ := hpq
  obtain ⟨new, hnew, -, -, himports⟩ := h.exists_hasPackage hinfo
  exact ⟨new, hnew, himports q hq⟩

/-- **What is listed is listed again**, with its files. -/
theorem mem_loaded_grown (h : Reload d t u imports imports' pool) {path : String}
    {info : PackageInfo} (hinfo : (path, info) ∈ (walkOf t roots imports).loaded) :
    ∃ new, (path, new) ∈ (walkOf u roots imports').loaded ∧ new.dir = info.dir ∧
      ∀ f ∈ info.files, f ∈ new.files := by
  obtain ⟨hpackage, entry, hentry, hreach⟩ := mem_loaded_iff.1 hinfo
  obtain ⟨new, hnew, hdir, hfiles, -⟩ := h.exists_hasPackage hpackage
  have hreach' : Relation.ReflTransGen (roots.Imports u) (trimmed entry) path :=
    Relation.ReflTransGen.mono (fun _ _ => h.imports_mono) _ _ hreach
  exact ⟨new, mem_loaded_iff.2 ⟨hnew, entry, h.subset entry hentry, hreach'⟩, hdir, hfiles⟩

/-- And elsewhere it is the same. -/
theorem mem_loaded_elsewhere (h : Reload d t u imports imports' pool) {path : String}
    {info : PackageInfo} (hinfo : (path, info) ∈ (walkOf t roots imports).loaded)
    (hdir : info.dir ≠ .ofPlace d) : (path, info) ∈ (walkOf u roots imports').loaded := by
  obtain ⟨new, hnew, -⟩ := h.mem_loaded_grown hinfo
  have hsame := (h.grows.hasPackage_iff h.source hdir).2 (mem_loaded_iff.1 hinfo).1
  rwa [hsame.unique (mem_loaded_iff.1 hnew).1]

/-- **If the second load is strict, the first one has listed what its packages import.** -/
theorem mem_loaded_of_import (h : Reload d t u imports imports' pool) {q : Program}
    (hq : load u roots imports' .strict = .ok q) {path other : String} {info : PackageInfo}
    (hinfo : (path, info) ∈ (walkOf t roots imports).loaded) (hother : other ∈ info.imports) :
    other ∈ (walkOf t roots imports).loaded.map Prod.fst := by
  obtain ⟨hpackage, entry, hentry, hreach⟩ := mem_loaded_iff.1 hinfo
  -- the package still imports the path, so the second load has listed it
  obtain ⟨new, hnew, -, -, himports⟩ := h.exists_hasPackage hpackage
  obtain ⟨listed, hlisted, -, -⟩ := h.mem_loaded_grown hinfo
  obtain rfl : new = listed := hnew.unique (mem_loaded_iff.1 hlisted).1
  obtain ⟨⟨_, found⟩, hfound, rfl⟩ :=
    List.mem_map.1 (Program.mem_loaded_of_import hq hlisted (himports other hother))
  obtain ⟨old, hold⟩ := h.grows.exists_before h.source (mem_loaded_iff.1 hfound).1
  exact List.mem_map.2 ⟨(_, old), mem_loaded_iff.2
    ⟨hold, entry, hentry, hreach.tail ⟨info, hpackage, hother⟩⟩, rfl⟩

/-! ## Packages that have been listed before -/

/-- A path that is reached again has been reached, or it is that of the pool. -/
theorem reached_of_grown (h : Reload d t u imports imports' pool)
    (hlisted : ImportsListed d pool (walkOf t roots imports).loaded (walkOf u roots imports').loaded)
    {entry path : String} (hentry : entry ∈ imports'.paths)
    (hreach : Relation.ReflTransGen (roots.Imports u) (trimmed entry) path) :
    path = pool ∨ ∃ entry ∈ imports.paths,
      Relation.ReflTransGen (roots.Imports t) (trimmed entry) path := by
  induction hreach with
  | refl =>
    rcases h.entries entry hentry with hold | hpool
    · exact .inr ⟨entry, hold, .refl⟩
    · exact .inl hpool
  | @tail p q hreach hpq ih =>
    obtain ⟨info, hinfo, hq⟩ := hpq
    have hmem : (p, info) ∈ (walkOf u roots imports').loaded :=
      mem_loaded_iff.2 ⟨hinfo, entry, hentry, hreach⟩
    by_cases hgrown : p = pool ∨ info.dir = .ofPlace d
    · rcases hlisted _ hmem hgrown q hq with hpool | hq
      · exact .inl hpool
      · obtain ⟨⟨_, other⟩, hother, rfl⟩ := List.mem_map.1 hq
        exact .inr (mem_loaded_iff.1 hother).2
    · obtain ⟨hne, hdir⟩ := not_or.1 hgrown
      obtain ⟨entry, hentry, hreach⟩ := ih.resolve_left hne
      have hold := (h.grows.hasPackage_iff h.source hdir).1 hinfo
      exact .inr ⟨entry, hentry, hreach.tail ⟨info, hold, hq⟩⟩

/-- **What is listed again has been listed**, except for the pool and what stands in the directory that
has grown. -/
theorem mem_loaded_of_grown (h : Reload d t u imports imports' pool)
    (hlisted : ImportsListed d pool (walkOf t roots imports).loaded (walkOf u roots imports').loaded)
    {path : String} {info : PackageInfo} (hinfo : (path, info) ∈ (walkOf u roots imports').loaded)
    (hpath : path ≠ pool) (hdir : info.dir ≠ .ofPlace d) :
    (path, info) ∈ (walkOf t roots imports).loaded := by
  obtain ⟨hpackage, entry, hentry, hreach⟩ := mem_loaded_iff.1 hinfo
  have hold := (h.reached_of_grown hlisted hentry hreach).resolve_left hpath
  exact mem_loaded_iff.2 ⟨(h.grows.hasPackage_iff h.source hdir).1 hpackage, hold⟩

/-! ## Surroundings -/

/-- What is declared is what the files of a listed package declare. -/
theorem declarations?_eq_some_iff {owner : String} {ds : Declarations} :
    (surroundingsOf t roots imports).declarations? owner = some ds ↔
      ∃ info, (owner, info) ∈ (walkOf t roots imports).loaded ∧ ds = .ofFiles info.files := by
  simp only [surroundingsOf, surroundings, declarationsIn, Option.map_eq_some_iff, lookup_loaded_iff,
    eq_comm (a := ds)]

/-- More files declare more types. -/
theorem hasType_of_subset {files files' : List SourceFile} (hsubset : ∀ f ∈ files, f ∈ files')
    {name : String} (hname : (Declarations.ofFiles files).hasType name = true) :
    (Declarations.ofFiles files').hasType name = true := by
  obtain ⟨i, hi, htype⟩ := Declarations.hasType_ofItems.1 hname
  obtain ⟨f, hf, hi⟩ := List.mem_flatMap.1 hi
  exact Declarations.hasType_ofItems.2 ⟨i, List.mem_flatMap.2 ⟨f, hsubset f hf, hi⟩, htype⟩

/-- **The surroundings of a package elsewhere** declare more in the second load. -/
theorem extends_surroundingsOf (h : Reload d t u imports imports' pool) {path : String}
    {info : PackageInfo} (hinfo : (path, info) ∈ (walkOf t roots imports).loaded)
    (hdir : info.dir ≠ .ofPlace d) :
    (surroundingsOf t roots imports).Extends (surroundingsOf u roots imports') path where
  classify := h.grows.classify_eq h.source
  own := by
    have hnew := h.mem_loaded_elsewhere hinfo hdir
    rw [declarations?_eq_some_iff.2 ⟨info, hnew, rfl⟩, declarations?_eq_some_iff.2 ⟨info, hinfo, rfl⟩]
  declaresType := by
    intro owner name hname
    unfold Surroundings.declaresType at hname ⊢
    split at hname
    · next ds hds =>
      obtain ⟨other, hother, rfl⟩ := declarations?_eq_some_iff.1 hds
      obtain ⟨new, hnew, -, hfiles⟩ := h.mem_loaded_grown hother
      rw [declarations?_eq_some_iff.2 ⟨new, hnew, rfl⟩]
      exact hasType_of_subset hfiles hname
    · simp at hname
  loaded := by
    intro owner hloaded
    obtain ⟨ds, hds⟩ := Option.isSome_iff_exists.1 hloaded
    obtain ⟨other, hother, rfl⟩ := declarations?_eq_some_iff.1 hds
    obtain ⟨new, hnew, -⟩ := h.mem_loaded_grown hother
    rw [declarations?_eq_some_iff.2 ⟨new, hnew, rfl⟩]
    rfl

end Reload

end Program

end ModelPool
