import ModelPool.Proofs.Load.Reload
import ModelPool.Proofs.Pool.Merging

/-!
# Proofs/Pool/Contributions — what the packages of a load contribute to the models

The model structs of every listed package but the pool are put together.  When a load is repeated in a
tree that has grown, the same structs contribute, and each field has the type that it had unless one of
its names is lost to an earlier glob.

* `mem_contributions` — the fragments of a program that are put together.
* `Reload.contributed_iff` — both loads put the same structs together.
-/

namespace ModelPool

namespace Program

/-- **A model struct that contributes**: it stands in a file of a listed package, which is not the
pool. -/
structure Contributed (loaded : List (String × PackageInfo)) (pool path : String) (f : SourceFile)
    (i : Item) : Prop where
  ne_pool : path ≠ pool
  listed : ∃ info, (path, info) ∈ loaded ∧ f ∈ info.files
  model : i ∈ f.unit.models

/-- **A fragment that contributes to the pool**: one of a package outside it. -/
structure Contributes (p : Program) (pool : String) (a : Package) (f : ModelFragment) : Prop where
  mem : a ∈ p.packages
  outside : a.importPath ≠ pool
  fragment : f ∈ a.models

/-- What is merged are the fragments that contribute. -/
theorem mem_contributions_iff {p : Program} {pool : String} {x : String × ModelFragment} :
    x ∈ p.contributions pool ↔ ∃ a, p.Contributes pool a x.2 ∧ a.importPath = x.1 := by
  obtain ⟨path, f⟩ := x
  simp only [contributions, fragments, List.mem_filter, List.mem_map, List.mem_flatMap]
  constructor
  · rintro ⟨⟨_, ⟨a, ha, f, hf, rfl⟩, heq⟩, hne⟩
    obtain ⟨rfl, rfl⟩ := Prod.mk.inj heq
    exact ⟨a, ⟨ha, by simpa using hne, hf⟩, rfl⟩
  · rintro ⟨a, ⟨ha, hne, hf⟩, rfl⟩
    exact ⟨⟨(a, f), ⟨a, ha, f, hf, rfl⟩, rfl⟩, by simpa using hne⟩

section Load

variable {t : FileTree} {roots : SourceRoots} {imports : ImportSet} {mode : LoadMode} {p : Program}
  {pool : String}

/-- A file of a load as it is checked. -/
def fileCheck (t : FileTree) (roots : SourceRoots) (imports : ImportSet) (path : String)
    (f : SourceFile) : FileCheck :=
  f.checkIn (surroundingsOf t roots imports) path

theorem file_fileCheck (path : String) (f : SourceFile) :
    (fileCheck t roots imports path f).file = f.path := rfl

/-- **What is put together are the contributing structs.** -/
theorem mem_contributions (h : load t roots imports mode = .ok p) {path : String}
    {m : ModelFragment} : (path, m) ∈ p.contributions pool ↔
      ∃ f i, Contributed (walkOf t roots imports).loaded pool path f i ∧
        (fileCheck t roots imports path f).fragment i = m := by
  rw [mem_contributions_iff]
  constructor
  · rintro ⟨_, ⟨ha, hne, hm⟩, hpath⟩
    rw [packages_of_load h] at ha
    obtain ⟨⟨path', info⟩, hinfo, rfl⟩ := List.mem_map.1 ha
    obtain rfl : path' = path := hpath
    obtain ⟨f, hf, i, hi, hfragment⟩ := SourceFile.mem_checkAll.1 hm
    exact ⟨f, i, ⟨hne, ⟨info, hinfo, hf⟩, hi⟩, hfragment⟩
  · rintro ⟨f, i, ⟨hne, ⟨info, hinfo, hf⟩, hi⟩, hfragment⟩
    exact ⟨_, ⟨packages_of_load h ▸ List.mem_map_of_mem hinfo, hne,
      SourceFile.mem_checkAll.2 ⟨f, hf, i, hi, hfragment⟩⟩, rfl⟩

/-- **The fields that are declared** are those of the contributing structs. -/
theorem declaresField_contributions (h : load t roots imports mode = .ok p) {model n : String}
    {type : ResolvedType} : DeclaresField (p.contributions pool) model n type ↔
      ∃ path f i, Contributed (walkOf t roots imports).loaded pool path f i ∧ i.name = model ∧
        ∃ x ∈ i.structFields.withNames, x.name = n ∧
          x.type.map ((fileCheck t roots imports path f).target i.generics) = type := by
  constructor
  · rintro ⟨⟨path, m⟩, hm, rfl, field, hfield, rfl, rfl⟩
    obtain ⟨f, i, hi, rfl⟩ := (mem_contributions h).1 hm
    obtain ⟨x, hx, rfl⟩ := List.mem_map.1 hfield
    exact ⟨path, f, i, hi, rfl, x, hx, rfl, rfl⟩
  · rintro ⟨path, f, i, hi, rfl, x, hx, rfl, rfl⟩
    exact ⟨_, (mem_contributions h).2 ⟨f, i, hi, rfl⟩, rfl, _, List.mem_map_of_mem hx, rfl, rfl⟩

/-- And the models are those of the contributing structs. -/
theorem exists_contribution_iff (h : load t roots imports mode = .ok p) {model : String} :
    (∃ x ∈ p.contributions pool, x.2.name = model) ↔
      ∃ path f i, Contributed (walkOf t roots imports).loaded pool path f i ∧ i.name = model := by
  constructor
  · rintro ⟨⟨path, m⟩, hm, rfl⟩
    obtain ⟨f, i, hi, rfl⟩ := (mem_contributions h).1 hm
    exact ⟨path, f, i, hi, rfl⟩
  · rintro ⟨path, f, i, hi, rfl⟩
    exact ⟨_, (mem_contributions h).2 ⟨f, i, hi, rfl⟩, rfl⟩

end Load

namespace Reload

variable {d : Place} {t u : FileTree} {roots : SourceRoots} {imports imports' : ImportSet}
  {pool : String}

/-- **What stands in the directory that has grown contributes nothing.** -/
def ContributesNothing (d : Place) (pool : String) (loaded : List (String × PackageInfo)) : Prop :=
  ∀ x ∈ loaded, x.2.dir = .ofPlace d → x.1 ≠ pool → ∀ f ∈ x.2.files, f.unit.models = []

section

variable (h : Reload d t u imports imports' pool)
  (hlisted : ImportsListed d pool (walkOf t roots imports).loaded (walkOf u roots imports').loaded)
  (hnothing : ContributesNothing d pool (walkOf u roots imports').loaded)
include h hnothing

/-- A package that contributes stands elsewhere. -/
theorem dir_ne_of_contributed {path : String} {info : PackageInfo} {f : SourceFile} {i : Item}
    (hinfo : (path, info) ∈ (walkOf t roots imports).loaded) (hpath : path ≠ pool)
    (hf : f ∈ info.files) (hi : i ∈ f.unit.models) : info.dir ≠ .ofPlace d := by
  intro hdir
  obtain ⟨new, hnew, hdir', hfiles⟩ := h.mem_loaded_grown hinfo
  rw [hnothing _ hnew (hdir'.trans hdir) hpath f (hfiles f hf)] at hi
  exact absurd hi List.not_mem_nil

/-- **The surroundings of a contributing struct** declare more in the second load. -/
theorem extends_of_contributed {path : String} {f : SourceFile} {i : Item}
    (hi : Contributed (walkOf t roots imports).loaded pool path f i) :
    (surroundingsOf t roots imports).Extends (surroundingsOf u roots imports') path := by
  obtain ⟨hpath, ⟨info, hinfo, hf⟩, hmodel⟩ := hi
  exact h.extends_surroundingsOf hinfo (h.dir_ne_of_contributed hnothing hinfo hpath hf hmodel)

include hlisted

/-- **Both loads put the same structs together.** -/
theorem contributed_iff {path : String} {f : SourceFile} {i : Item} :
    Contributed (walkOf u roots imports').loaded pool path f i ↔
      Contributed (walkOf t roots imports).loaded pool path f i := by
  constructor
  · rintro ⟨hpath, ⟨info, hinfo, hf⟩, hmodel⟩
    have hdir : info.dir ≠ .ofPlace d := by
      intro hdir
      rw [hnothing _ hinfo hdir hpath f hf] at hmodel
      exact absurd hmodel List.not_mem_nil
    exact ⟨hpath, ⟨info, h.mem_loaded_of_grown hlisted hinfo hpath hdir, hf⟩, hmodel⟩
  · rintro ⟨hpath, ⟨info, hinfo, hf⟩, hmodel⟩
    have hdir := h.dir_ne_of_contributed hnothing hinfo hpath hf hmodel
    exact ⟨hpath, ⟨info, h.mem_loaded_elsewhere hinfo hdir, hf⟩, hmodel⟩

end

end Reload

end Program

end ModelPool
