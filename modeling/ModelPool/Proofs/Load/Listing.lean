import ModelPool.Proofs.Load.Counted
import ModelPool.Proofs.Load.Packages
import ModelPool.Proofs.Walk.Order

/-!
# Proofs/Load/Listing — which packages a program lists, and in which order

* `load_lists_reachable` — the packages listed are those that can be reached, each once.
* `load_lists_dependencies_first` — a package comes after the packages it imports, unless the two lie on
  a cycle of imports.
-/

namespace ModelPool

open Text

namespace Program

/-- **One loaded package imports the path of another one.** -/
def Imports (p : Program) (path other : String) : Prop :=
  ∃ a ∈ p.packages, a.importPath = path ∧ other ∈ a.imports

/-! ## Which packages -/

/-- **A program lists the packages that can be reached, each once.**  A tolerant load of any path gives
a program; and whatever program a load gives, its import paths are without repetition, and they are
those of packages that are found, can be read, and are reached from an entry of the import set through
packages of that kind. -/
theorem load_lists_reachable (t : FileTree) (roots : SourceRoots) {imports : ImportSet}
    (hne : imports.paths ≠ []) :
    (∃ p, load t roots imports .tolerant = .ok p) ∧
      ∀ mode p, load t roots imports mode = .ok p →
        (p.packages.map Package.importPath).Nodup ∧
          ∀ path, path ∈ p.packages.map Package.importPath ↔
            (∃ info, roots.HasPackage t path info) ∧
              ∃ entry ∈ imports.paths,
                Relation.ReflTransGen (roots.Imports t) (trimmed entry) path := by
  refine ⟨⟨_, load_eq_ok_iff.2 ⟨hne, rfl, nofun⟩⟩, fun mode p h => ⟨nodup_importPaths h, ?_⟩⟩
  intro path
  rw [importPaths_of_load h, List.mem_map]
  constructor
  · rintro ⟨⟨path, info⟩, hx, rfl⟩
    obtain ⟨hinfo, hreach⟩ := mem_loaded_iff.1 hx
    exact ⟨⟨info, hinfo⟩, hreach⟩
  · rintro ⟨⟨info, hinfo⟩, hreach⟩
    exact ⟨(path, info), mem_loaded_iff.2 ⟨hinfo, hreach⟩, rfl⟩

/-- Of two packages that import each other both are listed, whichever the load starts from. -/
theorem load_lists_reachable_mutual :
    ∃ p, load mutualTree rootOnly ⟨[" a ", "gone", "a"]⟩ .tolerant = .ok p ∧
      p.packages.map Package.importPath = ["b", "a"] ∧
      (p.packages.map Package.importPath).Nodup ∧
      ∃ entry ∈ [" a ", "gone", "a"],
        Relation.ReflTransGen (rootOnly.Imports mutualTree) (trimmed entry) "b" := by
  have hne : (⟨[" a ", "gone", "a"]⟩ : ImportSet).paths ≠ [] := by simp
  obtain ⟨⟨p, hp⟩, hall⟩ := load_lists_reachable mutualTree rootOnly hne
  have hpaths : p.packages.map Package.importPath = ["b", "a"] := by
    rw [importPaths_of_load hp, ← countedWalk_eq]
    decide +kernel
  obtain ⟨hnodup, hmem⟩ := hall _ p hp
  exact ⟨p, hp, hpaths, hnodup, ((hmem "b").1 (by simp [hpaths])).2⟩

/-! ## In which order -/

section Order

variable {t : FileTree} {roots : SourceRoots} {imports : ImportSet} {mode : LoadMode} {p : Program}

/-- What a loaded package imports in the graph, it imports in the program. -/
theorem imports_of_mem_packages (h : load t roots imports mode = .ok p) {a : Package}
    (ha : a ∈ p.packages) {path : String} (hi : roots.Imports t a.importPath path) :
    path ∈ a.imports := by
  obtain ⟨info, hchecked, hinfo, -⟩ := (mem_packages_iff h).1 ha
  obtain ⟨other, hother, hpath⟩ := hi
  obtain rfl := hinfo.unique hother
  rw [hchecked]
  exact hpath

/-- Imports that lead on from a loaded package lead through loaded packages. -/
theorem reaches_of_reaches (h : load t roots imports mode = .ok p) {b : Package}
    (hb : b ∈ p.packages) {path : String}
    (hreach : Relation.ReflTransGen (roots.Imports t) b.importPath path) :
    Relation.ReflTransGen p.Imports b.importPath path := by
  obtain ⟨-, -, -, entry, hentry, hstart⟩ := (mem_packages_iff h).1 hb
  induction hreach with
  | refl => exact .refl
  | tail hmid hstep ih =>
    obtain ⟨info, hinfo, -⟩ := id hstep
    have ha : checked (surroundingsOf t roots imports) (_, info) ∈ p.packages :=
      (mem_packages_iff h).2 ⟨info, rfl, hinfo, entry, hentry, hstart.trans hmid⟩
    exact ih.tail ⟨_, ha, rfl, imports_of_mem_packages h ha hstep⟩

/-- The position of a package whose path is among the first ones. -/
theorem exists_position_lt (h : load t roots imports mode = .ok p) {b : Package}
    (hb : b ∈ p.packages) {i : Nat}
    (hpath : b.importPath ∈ ((walkOf t roots imports).loaded.take i).map Prod.fst) :
    ∃ j < i, p.packages[j]? = some b := by
  obtain ⟨x, hx, hxb⟩ := List.mem_map.1 hpath
  obtain ⟨j, hj, hjx⟩ := List.mem_take_iff_getElem.1 hx
  have hpackage : p.packages[j]? = some (checked (surroundingsOf t roots imports) x) := by
    rw [packages_of_load h, List.getElem?_map, List.getElem?_eq_getElem (by omega), hjx]
    rfl
  refine ⟨j, by omega, ?_⟩
  rw [hpackage, eq_of_importPath_eq h (List.mem_of_getElem? hpackage) hb hxb]

/-- **Dependencies are listed first, up to cycles.**  Where a loaded package imports another one, this
stands before it, or it is reached from there through imports of loaded packages, so that the two lie on
a cycle.  If there are no cycles, every package comes after all loaded packages that it imports. -/
theorem load_lists_dependencies_first (h : load t roots imports mode = .ok p) :
    (∀ (i : Nat) (a : Package), p.packages[i]? = some a → ∀ b ∈ p.packages, b.importPath ∈ a.imports →
      (∃ j < i, p.packages[j]? = some b) ∨
        Relation.ReflTransGen p.Imports b.importPath a.importPath) ∧
    ((∀ path, ¬ Relation.TransGen p.Imports path path) →
      ∀ (i : Nat) (a : Package), p.packages[i]? = some a → ∀ b ∈ p.packages, b.importPath ∈ a.imports →
        ∃ j < i, p.packages[j]? = some b) := by
  have hlaw : ∀ (i : Nat) (a : Package), p.packages[i]? = some a → ∀ b ∈ p.packages, b.importPath ∈ a.imports →
      (∃ j < i, p.packages[j]? = some b) ∨
        Relation.ReflTransGen p.Imports b.importPath a.importPath := by
    intro i a ha b hb hba
    obtain ⟨info, -, hinfo, -⟩ := (mem_packages_iff h).1 hb
    rw [packages_of_load h, List.getElem?_map, Option.map_eq_some_iff] at ha
    obtain ⟨x, hx, rfl⟩ := ha
    have hleaf : ¬ (ImportGraph.ofTree t roots).IsLeaf b.importPath :=
      fun hl => hl info (SourceRoots.lookup_ofTree_iff.2 hinfo)
    rcases ImportGraph.listed_before_or_reaches _ _ i x hx _ hba hleaf with hbefore | hreach
    · exact .inl (exists_position_lt h hb hbefore)
    · rw [ImportGraph.Reaches, SourceRoots.imports_ofTree] at hreach
      exact .inr (reaches_of_reaches h hb hreach)
  refine ⟨hlaw, fun hacyclic i a ha b hb hba => ?_⟩
  refine (hlaw i a ha b hb hba).resolve_right fun hreach => ?_
  exact hacyclic a.importPath (.head' ⟨a, List.mem_of_getElem? ha, rfl, hba⟩ hreach)

end Order

/-- Two packages that import each other lie on a cycle: the one that closes it is listed first, and the
other one is reached from it. -/
theorem load_lists_dependencies_first_mutual :
    ∃ p a b, load mutualTree rootOnly ⟨["a"]⟩ .strict = .ok p ∧ p.packages = [b, a] ∧
      a.importPath ∈ b.imports ∧
      ((∃ j < 0, p.packages[j]? = some a) ∨
        Relation.ReflTransGen p.Imports a.importPath b.importPath) := by
  obtain ⟨p, hp, himports⟩ : ∃ p, load mutualTree rootOnly ⟨["a"]⟩ .strict = .ok p ∧
      p.packages.map (fun a => (a.importPath, a.imports)) = [("b", ["a"]), ("a", ["b"])] :=
    exists_load (by simp) (by decide +kernel)
  obtain ⟨b, rest, hpackages, hb, hrest⟩ := List.map_eq_cons_iff.1 himports
  obtain ⟨a, rest, rfl, ha, hnil⟩ := List.map_eq_cons_iff.1 hrest
  obtain rfl := List.map_eq_nil_iff.1 hnil
  simp only [Prod.mk.injEq] at ha hb
  have hab : a.importPath ∈ b.imports := by simp [ha, hb]
  refine ⟨p, a, b, hp, hpackages, hab, ?_⟩
  exact (load_lists_dependencies_first hp).1 0 b (by simp [hpackages]) a (by simp [hpackages]) hab

end Program

end ModelPool
