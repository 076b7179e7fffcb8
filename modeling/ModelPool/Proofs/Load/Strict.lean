import ModelPool.Proofs.Check.Uses
import ModelPool.Proofs.Load.Counted
import ModelPool.Proofs.Load.Packages

/-!
# Proofs/Load/Strict — what a strict load has ruled out

    entry ──visited──▸ package            listed
                     ─▸ unreadable        told by the walk
                     ─▸ missing, initial  told by the walk
                     ─▸ missing, imported told by the checker, at an entry that points nowhere

A path without a package is told once, by the walk or by the checker.  The walk is silent about a missing
path that it meets as an import first; such a path is the text of an entry without a target, since the
path of every other entry is found.  So one of the two speaks, and a strict load refuses both.

* `missing_of_diagnostics` — the paths about which a walk is silent.
* `load_strict_sound` — what is imported by a strict program is there.
-/

namespace ModelPool

open Text

/-! ## Silence of the walk -/

namespace ImportGraph

variable {g : ImportGraph} {starts : List String}

/-- Something is told about a path without a package that a load starts from. -/
theorem diagnostics_initial_ne_nil {path : String} (h : g.IsLeaf path) :
    (g.lookup path).diagnostics path true ≠ [] := by
  cases hl : g.lookup path with
  | missing => simp [Found.diagnostics]
  | unreadable e => cases e <;> simp [Found.diagnostics]
  | package info => exact absurd hl (h info)

/-- And about one that is imported, unless it is missing. -/
theorem lookup_eq_missing {path : String} (h : g.IsLeaf path)
    (hnil : (g.lookup path).diagnostics path false = []) : g.lookup path = .missing := by
  cases hl : g.lookup path with
  | missing => rfl
  | unreadable e =>
    rw [hl] at hnil
    cases e <;> exact absurd hnil (by simp [Found.diagnostics])
  | package info => exact absurd hl (h info)

/-- **A path without a package about which nothing is told**: it is missing, and an import of a package
met. -/
def Untold (stack : List g.Frame) (w : Walk) (p : String) : Prop :=
  g.lookup p = .missing ∧ ∃ x ∈ met stack w, p ∈ x.2.imports

/-- **The invariant of silence**: as long as nothing has been told, the paths without a package are such
paths. -/
structure Silent (starts : List String) (stack : List g.Frame) (w : Walk) : Prop where
  traced : Traced starts stack w
  untold : w.diagnostics = [] → ∀ p ∈ w.visited, g.IsLeaf p → Untold stack w p

namespace Silent

variable {stack stack' : List g.Frame} {w w' : Walk}

/-- A path that has been untold stays so when more packages are met. -/
theorem untold_of_subset {p : String} (h : Untold stack w p)
    (hsub : ∀ x ∈ met stack w, x ∈ met stack' w') : Untold stack' w' p := by
  obtain ⟨hmissing, x, hx, hp⟩ := h
  exact ⟨hmissing, x, hsub x hx, hp⟩

/-- Entering a package tells nothing of paths without one. -/
theorem enter (h : Silent starts stack w) {p : String} {info : PackageInfo} (initial : Bool)
    (hl : g.lookup p = .package info) (hnil : (w.enter p initial (.package info)).diagnostics = [])
    {q : String} (hq : q ∈ (w.enter p initial (.package info)).visited) (hleaf : g.IsLeaf q) :
    Untold stack w q := by
  have hw : w.diagnostics = [] := (List.append_eq_nil_iff.1 hnil).1
  rcases List.mem_cons.1 hq with rfl | hq
  · exact absurd hl (hleaf info)
  · exact h.untold hw q hq hleaf

theorem step (hs : Step starts stack w stack' w') (h : Silent starts stack w) :
    Silent starts stack' w' := by
  refine ⟨h.traced.step hs, ?_⟩
  cases hs with
  | start _ _ hl =>
    intro hnil q hq hleaf
    exact untold_of_subset (h.enter true hl hnil hq hleaf) fun x hx => List.mem_cons_of_mem _ hx
  | startLeaf _ _ hl =>
    intro hnil
    exact absurd (List.append_eq_nil_iff.1 hnil).2 (diagnostics_initial_ne_nil hl)
  | seen _ _ => exact h.untold
  | enter _ _ hl =>
    intro hnil q hq hleaf
    exact untold_of_subset (h.enter false hl hnil hq hleaf) fun x hx => List.mem_cons_of_mem _ hx
  | @leaf f p rest below w hr _ hl =>
    intro hnil q hq hleaf
    obtain ⟨hw, hfound⟩ := List.append_eq_nil_iff.1 hnil
    rcases List.mem_cons.1 hq with rfl | hq
    · refine ⟨lookup_eq_missing hl hfound, _, mem_met_of_mem_stack List.mem_cons_self, ?_⟩
      exact h.traced.followed.rest_mem f List.mem_cons_self q (hr ▸ List.mem_cons_self)
    · exact h.untold hw q hq hleaf
  | list _ =>
    intro hnil q hq hleaf
    exact untold_of_subset (h.untold hnil q hq hleaf) fun x hx => mem_met_list.2 hx

end Silent

/-- **What a walk is silent about**: a path that it reaches is listed, or it is missing and imported by a
package that is listed. -/
theorem missing_of_diagnostics (h : (g.walk starts).diagnostics = []) {p : String}
    (hp : g.Reachable starts p) :
    p ∈ (g.walk starts).loaded.map Prod.fst ∨
      g.lookup p = .missing ∧ ∃ x ∈ (g.walk starts).loaded, p ∈ x.2.imports := by
  have hw : Silent starts ([] : List g.Frame) (g.walk starts) :=
    walk_induction (I := Silent starts) Silent.step
      ⟨⟨Met.start g, Followed.start g, fun _ hp => absurd hp List.not_mem_nil⟩,
        fun _ _ hp => absurd hp List.not_mem_nil⟩
  have hvisited := mem_visited_of_reachable hp
  by_cases hleaf : g.IsLeaf p
  · exact .inr (hw.untold h p hvisited hleaf)
  · obtain ⟨info, hl⟩ : ∃ info, g.lookup p = .package info := by simpa [IsLeaf] using hleaf
    exact .inl (List.mem_map.2 ⟨_, hw.traced.met.complete p hvisited info hl, rfl⟩)

end ImportGraph

/-! ## Imports without a package -/

namespace SourceRoots

variable {t : FileTree} {roots : SourceRoots}

/-- The package of a target is found. -/
theorem isSome_find?_of_package? {u : UseEntry} {path : String}
    (h : (roots.classify t u).package? = some path) : (roots.find? t path).isSome = true := by
  obtain ⟨segments, hbelow, rfl⟩ := exists_packagePrefix?_of_package? h
  exact (isSome_find?_of_packagePrefix? hbelow).2

end SourceRoots

namespace PackageInfo

variable {t : FileTree} {roots : SourceRoots}

/-- **An import that is not found is the path of an entry without a target.** -/
theorem classify_eq_unresolved {u : UseEntry} {path : String}
    (h : dependency? t roots u = some path) (hnone : roots.find? t path = none) :
    roots.classify t u = .unresolved := by
  have hne : (roots.classify t u).package? ≠ some path := fun hp => by
    simpa [hnone] using SourceRoots.isSome_find?_of_package? hp
  unfold dependency? at h
  split at h
  · simp at h
  · simp at h
  · next hu => exact hu
  · exact absurd h hne

end PackageInfo

/-! ## Strict programs -/

/-- **A package declares a name**, as a type or otherwise. -/
def Package.Declares (a : Package) (name : String) : Prop :=
  ∃ f ∈ a.files, ∃ i ∈ f.unit.items, i.name = name

namespace Program

/-- The problems of packages are those of each. -/
theorem found_checkPackages (s : Surroundings) (loaded : List (String × PackageInfo)) :
    (checkPackages s loaded).found =
      loaded.flatMap fun x => (SourceFile.checkAll s x.1 x.2.files).found := by
  induction loaded with
  | nil => rfl
  | cons x r ih => simp [checkPackages, ih]

variable {t : FileTree} {roots : SourceRoots} {imports : ImportSet} {mode : LoadMode} {p : Program}

/-- **What a program without diagnostics has not met.** -/
theorem diagnostics_eq_nil_iff (h : load t roots imports mode = .ok p) :
    p.diagnostics = [] ↔ (walkOf t roots imports).diagnostics = [] ∧
      (∀ x ∈ (walkOf t roots imports).loaded, redeclarations x.1 x.2.files = []) ∧
      ∀ x ∈ (walkOf t roots imports).loaded, ∀ f ∈ x.2.files,
        (f.check (surroundingsOf t roots imports) x.1).found = [] := by
  obtain ⟨-, rfl, -⟩ := load_eq_ok_iff.1 h
  simp only [ofWalk, found_checkPackages, SourceFile.found_checkAll, List.append_eq_nil_iff,
    List.flatMap_eq_nil_iff, and_assoc, surroundingsOf]

/-- A name that is declared for the checker is declared by a package of the program. -/
theorem exists_declares (h : load t roots imports mode = .ok p) {owner name : String}
    (hd : (surroundingsOf t roots imports).declares owner name = true) :
    ∃ a ∈ p.packages, a.importPath = owner ∧ a.Declares name := by
  have hlookup : ∃ info, (walkOf t roots imports).loaded.lookup owner = some info ∧
      (Declarations.ofFiles info.files).contains name = true := by
    simp only [Surroundings.declares, surroundingsOf, surroundings, declarationsIn] at hd
    cases hl : (walkOf t roots imports).loaded.lookup owner with
    | none => simp [hl] at hd
    | some info => exact ⟨info, rfl, by simpa [hl] using hd⟩
  obtain ⟨info, hinfo, hname⟩ := hlookup
  obtain ⟨i, hi, hname⟩ := Declarations.contains_ofItems.1 hname
  obtain ⟨f, hf, hif⟩ := List.mem_flatMap.1 hi
  exact ⟨_, mem_packages_of_loaded h (lookup_loaded_iff.1 hinfo), rfl, f, hf, i, hif, hname⟩

/-- The files of a strict program have no problems. -/
theorem found_check_of_strict (h : load t roots imports .strict = .ok p) {x : String × PackageInfo}
    (hx : x ∈ (walkOf t roots imports).loaded) {f : SourceFile} (hf : f ∈ x.2.files) :
    (f.check (surroundingsOf t roots imports) x.1).found = [] :=
  ((diagnostics_eq_nil_iff h).1 ((load_eq_ok_iff.1 h).2.2 rfl)).2.2 x hx f hf

/-- **A strict program lists every path that its load reaches.** -/
theorem mem_loaded_of_reachable (h : load t roots imports .strict = .ok p) {path : String}
    (hreach : (ImportGraph.ofTree t roots).Reachable (imports.paths.map trimmed) path) :
    path ∈ (walkOf t roots imports).loaded.map Prod.fst := by
  obtain ⟨hwalk, -, -⟩ := (diagnostics_eq_nil_iff h).1 ((load_eq_ok_iff.1 h).2.2 rfl)
  rcases ImportGraph.missing_of_diagnostics hwalk hreach with hloaded | ⟨hmissing, x, hx, hpath⟩
  · exact hloaded
  · -- the entry that the import stems from points nowhere, which the checker tells
    obtain ⟨⟨dir, -, hread⟩, -⟩ := mem_loaded_iff.1 hx
    rw [PackageInfo.imports_of_read hread] at hpath
    obtain ⟨f, hf, u, hu, hdep⟩ := (PackageInfo.mem_importsOf_iff.1 hpath).1
    have hunresolved := PackageInfo.classify_eq_unresolved hdep
      (SourceRoots.lookup_ofTree_eq_missing_iff.1 hmissing)
    have hresolves := SourceFile.resolves_of_found_check (found_check_of_strict h hx hf)
    exact absurd hunresolved (hresolves u hu).ne_unresolved

/-- So it lists what its packages import. -/
theorem mem_loaded_of_import (h : load t roots imports .strict = .ok p) {path other : String}
    {info : PackageInfo} (hinfo : (path, info) ∈ (walkOf t roots imports).loaded) (hother : other ∈ info.imports) :
    other ∈ (walkOf t roots imports).loaded.map Prod.fst := by
  obtain ⟨hlookup, hreach⟩ := ImportGraph.mem_loaded_walk.1 hinfo
  exact mem_loaded_of_reachable h (hreach.tail ⟨info, hlookup, hother⟩)

/-- And every entry of the import set. -/
theorem exists_package_of_entry (h : load t roots imports .strict = .ok p) {entry : String}
    (hentry : entry ∈ imports.paths) : ∃ a ∈ p.packages, a.importPath = trimmed entry := by
  have hlisted := mem_loaded_of_reachable h (ImportGraph.reachable_of_mem (List.mem_map_of_mem hentry))
  rw [← importPaths_of_load h] at hlisted
  exact List.mem_map.1 hlisted

/-- **What is imported by a strict program is there.**  Every entry of the import set is the path of a
loaded package.  Every `use` entry of a loaded file that points to an item of a package points to an
item that a loaded package of that path declares, and no entry is left without a target or relative. -/
theorem load_strict_sound (h : load t roots imports .strict = .ok p) :
    (∀ entry ∈ imports.paths, ∃ a ∈ p.packages, a.importPath = trimmed entry) ∧
      ∀ a ∈ p.packages, ∀ f ∈ a.files, ∀ u ∈ f.unit.uses,
        (∀ owner name, roots.classify t u = .item owner name →
          ∃ b ∈ p.packages, b.importPath = owner ∧ b.Declares name) ∧
        roots.classify t u ≠ .unresolved ∧ roots.classify t u ≠ .unsupported := by
  have hresolves : ∀ x ∈ (walkOf t roots imports).loaded, ∀ f ∈ x.2.files, ∀ u ∈ f.unit.uses,
      Scope.Resolves (surroundingsOf t roots imports) u :=
    fun x hx f hf => SourceFile.resolves_of_found_check (found_check_of_strict h hx hf)
  refine ⟨fun entry hentry => exists_package_of_entry h hentry, ?_⟩
  intro a ha f hf u hu
  rw [packages_of_load h] at ha
  obtain ⟨x, hx, rfl⟩ := List.mem_map.1 ha
  have hu := hresolves x hx f hf u hu
  exact ⟨fun owner name hitem => exists_declares h (hu.declares hitem), hu.ne_unresolved,
    hu.ne_unsupported⟩

/-- A strict load goes round a cycle, and what stands on it is there. -/
theorem load_strict_sound_mutual :
    ∃ p, load mutualTree rootOnly ⟨["a", " b "]⟩ .strict = .ok p ∧
      (∃ a ∈ p.packages, a.importPath = "b") ∧
      ∀ a ∈ p.packages, ∀ f ∈ a.files, ∀ u ∈ f.unit.uses,
        ∀ owner name, rootOnly.classify mutualTree u = .item owner name →
          ∃ b ∈ p.packages, b.importPath = owner ∧ b.Declares name := by
  obtain ⟨p, hp⟩ : ∃ p, load mutualTree rootOnly ⟨["a", " b "]⟩ .strict = .ok p :=
    ⟨_, load_eq_ok_counted (by simp) fun _ => by decide +kernel⟩
  obtain ⟨hentries, huses⟩ := load_strict_sound hp
  exact ⟨p, hp, hentries " b " (by simp), fun a ha f hf u hu => (huses a ha f hf u hu).1⟩

end Program

end ModelPool
