import ModelPool.Proofs.Check.Bindings
import ModelPool.Proofs.Load.Wider
import ModelPool.Proofs.Pool.Collecting

/-!
# Proofs/Load/Importing — which imports a package declares

    use b;  use b::T;  use b::*;   stand for  b         where b is the longest prefix that names a package
    use b::T::U;  use gone::x;     stand for themselves
    use std::fmt;  use self::x;    stand for nothing

The imports of a package are what its entries stand for, each once and in the order of the entries, without
the package itself.  The names of a file come from the same targets, so they refer to nothing else.

* `packagePrefix?_eq_some_iff` — what the search for a package among the prefixes of a path finds.
* `loaded_or_refersTo` — where the package of a declared target comes from.
* `read_declares_imports` — the imports of a package.
-/

namespace ModelPool

namespace SourceRoots

variable {t : FileTree} {roots : SourceRoots} {path segments other : List String} {u : UseEntry}
  {found : String}

/-! ## Prefixes that name packages -/

/-- **The longest prefix of a path that names the directory of a package.** -/
structure IsLongestPackage (t : FileTree) (roots : SourceRoots) (path segments : List String) : Prop where
  below : segments <+: path
  named : ∃ dir, roots.find? t (pathText segments) = some dir
  longest : ∀ other, other <+: path → (∃ dir, roots.find? t (pathText other) = some dir) →
    other.length ≤ segments.length

theorem IsLongestPackage.unique (h : roots.IsLongestPackage t path segments)
    (h' : roots.IsLongestPackage t path other) : segments = other :=
  have hle := h.longest other h'.below h'.named
  have hge := h'.longest segments h.below h.named
  (List.prefix_of_prefix_length_le h.below h'.below hge).eq_of_length (Nat.le_antisymm hge hle)

/-- The prefixes of a path stand in the order of their lengths. -/
theorem pairwise_prefixes (path : List String) :
    (prefixes path).Pairwise fun p q => q.length ≤ p.length := by
  unfold prefixes
  rw [List.pairwise_map]
  refine List.pairwise_lt_range.imp fun hlt => ?_
  simp only [List.length_take]
  omega

/-- All of them but the empty one are among them. -/
theorem mem_prefixes (hother : other <+: path) (hne : other ≠ []) : other ∈ prefixes path := by
  have hlength := hother.length_le
  have hpos := List.length_pos_iff.2 hne
  refine List.mem_map.2 ⟨path.length - other.length, List.mem_range.2 (by omega), ?_⟩
  rw [Nat.sub_sub_self hlength]
  exact (List.prefix_iff_eq_take.1 hother).symm

/-- No package is named by nothing. -/
theorem ne_nil_of_find? {dir : FilePath} (h : roots.find? t (pathText path) = some dir) : path ≠ [] := by
  rintro rfl
  have hnil : packageSegments (pathText []) = [] := by decide +kernel
  simp [find?, findSegments?, hnil] at h

/-- **What the search among the prefixes finds.** -/
theorem packagePrefix?_eq_some_iff :
    roots.packagePrefix? t path = some segments ↔ roots.IsLongestPackage t path segments := by
  have hfound : ∀ {segments}, roots.packagePrefix? t path = some segments →
      roots.IsLongestPackage t path segments := by
    intro segments h
    obtain ⟨hbelow, hnamed⟩ := isSome_find?_of_packagePrefix? h
    refine ⟨hbelow, Option.isSome_iff_exists.1 hnamed, fun other hother hdir => ?_⟩
    obtain ⟨-, longer, shorter, hsplit, hlonger⟩ := List.find?_eq_some_iff_append.1 h
    have hmem := mem_prefixes hother (hdir.elim fun _ => ne_nil_of_find?)
    have hordered := pairwise_prefixes path
    rw [hsplit] at hmem hordered
    rcases List.mem_append.1 hmem with hmem | hmem
    · exact absurd (hlonger other hmem) (by simp [Option.isSome_iff_exists.2 hdir])
    · rcases List.mem_cons.1 hmem with rfl | hmem
      · exact le_rfl
      · exact (List.pairwise_cons.1 (List.pairwise_append.1 hordered).2.1).1 other hmem
  refine ⟨hfound, fun h => ?_⟩
  cases hsearch : roots.packagePrefix? t path with
  | some segments' => exact congrArg some ((hfound hsearch).unique h)
  | none =>
    obtain ⟨dir, hdir⟩ := h.named
    have hnone := List.find?_eq_none.1 hsearch segments (mem_prefixes h.below (ne_nil_of_find? hdir))
    exact absurd (Option.isSome_iff_exists.2 h.named) hnone

/-! ## What entries stand for -/

/-- **An entry leads into the package of a prefix of its path**: nothing is left behind the prefix, or a single
name that no glob stands behind. -/
def LeadsInto (u : UseEntry) (segments : List String) : Prop :=
  u.path = segments ∨ u.glob = false ∧ ∃ name, u.path = segments ++ [name]

/-- **The import that an entry stands for**: the package of the longest prefix that names one, if the entry
leads into it, and else the whole path. -/
inductive StandsFor (t : FileTree) (roots : SourceRoots) (u : UseEntry) : String → Prop where
  | package {segments : List String} (hlongest : roots.IsLongestPackage t u.path segments)
      (hleads : LeadsInto u segments) : StandsFor t roots u (pathText segments)
  | path (hnone : ∀ segments, roots.IsLongestPackage t u.path segments → ¬ LeadsInto u segments) :
      StandsFor t roots u (pathText u.path)

/-- A target that is looked up tells what the entry leads into. -/
theorem standsFor_of_package? (h : (roots.classify t u).package? = some found) :
    roots.StandsFor t u found := by
  obtain ⟨segments, hsearch, rfl⟩ := exists_packagePrefix?_of_package? h
  refine .package (packagePrefix?_eq_some_iff.1 hsearch) ?_
  obtain ⟨rest, hrest⟩ := (isSome_find?_of_packagePrefix? hsearch).1
  have hdrop : u.path.drop segments.length = rest := by rw [← hrest, List.drop_left]
  unfold classify at h
  split at h
  · simp [UseTarget.package?] at h
  · rw [hsearch] at h
    dsimp only at h
    split at h
    · simp [UseTarget.package?] at h
    · split at h
      · simp [UseTarget.package?] at h
      · rw [hdrop] at h
        split at h
        · exact .inl (by simpa using hrest.symm)
        · exact .inl (by simpa using hrest.symm)
        · next name hglob => exact .inr ⟨hglob, name, hrest.symm⟩
        · simp [UseTarget.package?] at h

/-- And an entry that points nowhere leads into no package. -/
theorem standsFor_of_unresolved (h : roots.classify t u = .unresolved) :
    roots.StandsFor t u (pathText u.path) := by
  refine .path fun segments hlongest hleads => ?_
  have hsearch := packagePrefix?_eq_some_iff.2 hlongest
  have hne : segments ≠ [] := hlongest.named.elim fun _ => ne_nil_of_find?
  unfold classify at h
  split at h
  · next hnil =>
    rw [hnil] at hlongest
    exact hne (List.prefix_nil.1 hlongest.below)
  · rw [hsearch] at h
    dsimp only at h
    split at h
    · simp at h
    · split at h
      · simp at h
      · rcases hleads with heq | ⟨hglob, name, heq⟩
        · rw [heq, List.drop_length] at h
          cases hglob : u.glob <;> simp [hglob] at h
        · rw [heq, List.drop_left, hglob] at h
          simp at h

end SourceRoots

namespace PackageInfo

variable {t : FileTree} {roots : SourceRoots} {u : UseEntry} {dir : FilePath} {info : PackageInfo}
  {owner : String}

/-- The entry is looked up: it points neither into the standard library nor is it relative. -/
def isLookedUp (t : FileTree) (roots : SourceRoots) (u : UseEntry) : Bool :=
  decide (roots.classify t u ≠ .external ∧ roots.classify t u ≠ .unsupported)

theorem standsFor_of_dependency? {path : String} (h : dependency? t roots u = some path) :
    roots.StandsFor t u path := by
  unfold dependency? at h
  split at h
  · simp at h
  · simp at h
  · next hnone =>
    obtain rfl := Option.some.inj h
    exact SourceRoots.standsFor_of_unresolved hnone
  · exact SourceRoots.standsFor_of_package? h

theorem isSome_dependency?_iff : (dependency? t roots u).isSome = isLookedUp t roots u := by
  unfold dependency? isLookedUp
  cases roots.classify t u <;> simp [UseTarget.package?]

/-- **Entries that are looked up stand for one import each.** -/
theorem forall₂_standsFor (uses : List UseEntry) :
    List.Forall₂ (roots.StandsFor t) (uses.filter (isLookedUp t roots))
      (uses.filterMap (dependency? t roots)) := by
  induction uses with
  | nil => exact .nil
  | cons u r ih =>
    cases hpath : dependency? t roots u with
    | none =>
      have hlooked : isLookedUp t roots u = false := by rw [← isSome_dependency?_iff, hpath]; rfl
      rwa [List.filter_cons_of_neg (by simp [hlooked]), List.filterMap_cons_none hpath]
    | some path =>
      have hlooked : isLookedUp t roots u = true := by rw [← isSome_dependency?_iff, hpath]; rfl
      rw [List.filter_cons_of_pos hlooked, List.filterMap_cons_some hpath]
      exact .cons (standsFor_of_dependency? hpath) ih

/-- The package of an entry's target is imported, or it is the package itself. -/
theorem imports_or_own (h : read t roots dir = .ok info) {f : SourceFile} (hf : f ∈ info.files)
    (hu : u ∈ f.unit.uses) (howner : (roots.classify t u).package? = some owner) :
    owner ∈ info.imports ∨ info.importPath = some owner := by
  refine (em (info.importPath = some owner)).symm.imp_left fun hown => ?_
  rw [imports_of_read h]
  exact mem_importsOf_iff.2 ⟨⟨f, hf, u, hu, Program.dependency?_of_package? howner⟩, hown⟩

end PackageInfo

/-! ## Names of a file -/

namespace Scope

/-- **A scope refers to a package**: it lends its types, or a name stands for it or for one of its items. -/
def RefersTo (scope : Scope) (owner : String) : Prop :=
  owner ∈ scope.globs ∨ ∃ name, scope.binding? name = some (.package owner) ∨
    ∃ item, scope.binding? name = some (.item owner item)

variable {s : Surroundings} {package owner : String} {f : SourceFile}

/-- **A file refers to the targets of its entries only.** -/
theorem exists_package?_of_refersTo (h : (ofFile s package f).value.RefersTo owner) :
    ∃ u ∈ f.unit.uses, (s.classify u).package? = some owner := by
  have hbound : ∀ {name b}, (ofFile s package f).value.binding? name = some b →
      ∃ u ∈ f.unit.uses, (bindingFor s u (s.classify u)).1 = b := fun hb => by
    obtain ⟨u, hu, hbinds⟩ := exists_binds_of_binding? hb
    exact ⟨u, hu, hbinds.binding⟩
  rcases h with hglob | ⟨name, hpackage | ⟨item, hitem⟩⟩
  · obtain ⟨u, hu, htarget⟩ := mem_globs_iff.1 hglob
    exact ⟨u, hu, by rw [htarget]; rfl⟩
  · obtain ⟨u, hu, hbinding⟩ := hbound hpackage
    refine ⟨u, hu, ?_⟩
    cases htarget : s.classify u <;> simp_all [bindingFor, UseTarget.package?]
  · obtain ⟨u, hu, hbinding⟩ := hbound hitem
    refine ⟨u, hu, ?_⟩
    cases htarget : s.classify u <;> simp_all [bindingFor, UseTarget.package?]

/-! Where the package of a declared target comes from. -/

theorem loaded_of_resolveQualified {path : List String} {name : String}
    (h : (resolveQualified s path).1 = .declared owner name) : (s.declarations? owner).isSome = true := by
  unfold resolveQualified at h
  split at h
  · simp at h
  · dsimp only at h
    split at h
    · next hloaded =>
      obtain ⟨rfl, -⟩ := TypeTarget.declared.inj h
      exact hloaded
    · simp at h

theorem loaded_or_refersTo_of_resolveName {first name : String}
    (h : ((ofFile s package f).value.resolveName s first).1 = .declared owner name) :
    (s.declarations? owner).isSome = true ∨ (ofFile s package f).value.RefersTo owner := by
  unfold resolveName at h
  split at h
  · next hown =>
    obtain ⟨rfl, -⟩ := TypeTarget.declared.inj h
    exact .inl (isSome_declarations?_of_declaresType hown)
  · split at h
    · next item hbound =>
      obtain ⟨rfl, -⟩ := TypeTarget.declared.inj h
      exact .inr (.inr ⟨first, .inr ⟨item, hbound⟩⟩)
    · simp at h
    · simp at h
    · simp at h
    · split at h
      · simp at h
      · split at h
        · next hglob =>
          obtain ⟨rfl, -⟩ := TypeTarget.declared.inj h
          exact .inl (isSome_declarations?_of_declaresType (globWith?_eq_some_iff.1 hglob).1)
        · simp at h

theorem loaded_or_refersTo_of_resolveJoined {first name : String} {rest : List String}
    (h : ((ofFile s package f).value.resolveJoined s first rest).1 = .declared owner name) :
    (s.declarations? owner).isSome = true ∨ (ofFile s package f).value.RefersTo owner := by
  unfold resolveJoined at h
  dsimp only at h
  split at h
  · simp at h
  · split at h
    · next hbound =>
      split at h
      · obtain ⟨rfl, -⟩ := TypeTarget.declared.inj h
        exact .inr (.inr ⟨first, .inl hbound⟩)
      · exact .inl (loaded_of_resolveQualified h)
    · simp at h
    · simp at h
    · simp at h
    · exact .inl (loaded_of_resolveQualified h)

/-- **A declared target lies in a package that is loaded**, or in one that the file refers to. -/
theorem loaded_or_refersTo {generics path : List String} {name : String}
    (h : ((ofFile s package f).value.resolvePath s generics path).1 = .declared owner name) :
    (s.declarations? owner).isSome = true ∨ (ofFile s package f).value.RefersTo owner := by
  unfold resolvePath at h
  split at h
  · simp at h
  · split at h
    · simp at h
    · split at h
      · exact loaded_or_refersTo_of_resolveName h
      · exact loaded_or_refersTo_of_resolveJoined h

end Scope

namespace PackageInfo

variable {t : FileTree} {roots : SourceRoots} {dir : FilePath} {info : PackageInfo}

/-- **The imports of a package.**  Its files stand in the order of their names.  Each entry that is looked up
stands for one import, and the imports of the package are these in the order of their first occurrence, each
once and without the package's own path.  Whatever package an entry of a file points into, and whatever package
the names of the file refer to, is among them or is the package itself. -/
theorem read_declares_imports (h : read t roots dir = .ok info) :
    (∃ names : List String, names.Pairwise (· < ·) ∧
      info.files.map SourceFile.path = names.map info.dir.child) ∧
    info.imports.Nodup ∧ (∀ path ∈ info.imports, info.importPath ≠ some path) ∧
    (∃ paths, List.Forall₂ (roots.StandsFor t)
        ((info.files.flatMap fun f => f.unit.uses).filter (isLookedUp t roots)) paths ∧
      info.imports = (paths.filter fun path => decide (info.importPath ≠ some path)).eraseDups) ∧
    ∀ f ∈ info.files, ∀ owner,
      ((∃ u ∈ f.unit.uses, (roots.classify t u).package? = some owner) ∨ ∃ loaded package,
        (Scope.ofFile (Program.surroundings t roots loaded) package f).value.RefersTo owner) →
      owner ∈ info.imports ∨ info.importPath = some owner := by
  have himports := imports_of_read h
  refine ⟨?_, ?_, fun path hpath => ?_, ⟨_, forall₂_standsFor _, himports⟩, fun f hf owner howner => ?_⟩
  · obtain ⟨names, hsorted, -, hfiles⟩ := exists_names_of_read h
    exact ⟨names, hsorted, paths_of_mapM hfiles⟩
  · rw [himports]
    exact nodup_eraseDups _
  · rw [himports] at hpath
    exact (mem_importsOf_iff.1 hpath).2
  · obtain ⟨u, hu, htarget⟩ : ∃ u ∈ f.unit.uses, (roots.classify t u).package? = some owner := by
      rcases howner with hentry | ⟨loaded, package, hrefers⟩
      · exact hentry
      · exact Scope.exists_package?_of_refersTo hrefers
    exact imports_or_own h hf hu htarget

/-- Packages, one of which uses another, itself and what is not there. -/
def importingTree : FileTree := .ofTexts
  [(["a", "x.rs"], "use b::T;use std::fmt;use gone::y;"), (["a", "y.rs"], "use b;use a::x;use b::c;"),
    (["b", "x.rs"], ""), (["b", "c", "x.rs"], "")]

/-- The longest prefix counts, and what is used again is imported once. -/
theorem read_declares_imports_once : ∃ info, read importingTree Program.rootOnly ⟨"/a"⟩ = .ok info ∧
    info.imports = ["b", "gone::y", "b::c"] ∧ info.imports.Nodup := by
  obtain ⟨info, hinfo, himports⟩ := Option.map_eq_some_iff.1 (show
    (read importingTree Program.rootOnly ⟨"/a"⟩).toOption.map imports = some ["b", "gone::y", "b::c"] by
      decide +kernel)
  have h := toOption_eq_some_iff.1 hinfo
  exact ⟨info, h, himports, (read_declares_imports h).2.1⟩

end PackageInfo

end ModelPool
