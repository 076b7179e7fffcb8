import ModelPool.Proofs.Check.Routes
import ModelPool.Proofs.Load.Counted
import ModelPool.Proofs.Load.Declared
import ModelPool.Proofs.Load.Unresolved

/-!
# Proofs/Load/Bound — paths behind the name of a package

    use q as m;
    m::T, m::below::T      resolved in q, q::below
    use q as std;
    std::T                 a path into the standard library, and not checked

The roots of the standard library are reserved: a path that begins with one of them is never resolved
against the packages, whatever name an import binds.  Behind every other name that an import binds to a
package, a path stands for what the package, or one below it, declares, or else something is told at its line.

* `declared_or_problem_of_bound` — where such a path leads.
* `load_imports_bind` — what is told of it.
* `not_forall_imports_bind` — an import that has a reserved name.
-/

namespace ModelPool

/-! ## Where a path leads -/

namespace Scope

variable {s : Surroundings} {scope : Scope} {generics : List String} {first owner : String}

theorem resolveQualified_ne_external (path segments : List String) :
    (resolveQualified s path).1 ≠ .external segments := by
  unfold resolveQualified
  split
  · simp
  · dsimp only
    split <;> simp [declaredIn]

/-- Behind the name of a package there is no path into the standard library. -/
theorem resolveJoined_ne_external (hroot : first ∉ externalRoots)
    (h : scope.binding? first = some (.package owner)) (rest segments : List String) :
    (scope.resolveJoined s first rest).1 ≠ .external segments := by
  unfold resolveJoined
  simp only [List.contains_eq_mem, decide_eq_true_eq, if_neg hroot, h]
  split
  · simp [declaredIn]
  · exact resolveQualified_ne_external _ _

/-- **Behind the name of a package** a path stands for a type that the package declares, or one below it;
or else it has a problem. -/
theorem declared_or_problem_of_bound (hself : first ≠ "Self") (hgeneric : first ∉ generics)
    (hroot : first ∉ externalRoots) (h : scope.binding? first = some (.package owner)) (below : List String)
    (name : String) :
    scope.resolvePath s generics (first :: (below ++ [name])) =
        (.declared (pathText (owner :: below)) name, []) ∧
      s.declaresType (pathText (owner :: below)) name = true ∨
    (scope.resolvePath s generics (first :: (below ++ [name]))).2 ≠ [] := by
  rw [resolvePath_of_joined hself hgeneric (by simp)]
  rcases resolveJoined_of_package (s := s) hroot h below name with heq | hproblem
  · rw [heq]
    cases hdeclares : s.declaresType (pathText (owner :: below)) name with
    | true => exact .inl ⟨declaredIn_of_declaresType hdeclares, rfl⟩
    | false => exact .inr (by simp [declaredIn, hdeclares])
  · exact .inr hproblem

end Scope

/-! ## Loaded files -/

namespace Program

variable {t : FileTree} {roots : SourceRoots} {imports : ImportSet} {mode : LoadMode} {p : Program}

/-- **Imports bind paths.**  Let the first of several segments of a path be bound to a package, in a file of a
loaded package.  If it is a root of the standard library, the path stands for itself.  If it is any other
name, the path stands for no path into the standard library: it stands for a type that the package declares,
or one below it, unless something is told at its line. -/
theorem load_imports_bind (h : load t roots imports mode = .ok p) {a : Package} (ha : a ∈ p.packages)
    {f : SourceFile} (hf : f ∈ a.files) {x : PlacedType} (hx : x ∈ f.unit.placedTypes)
    {first name owner : String} (below : List String)
    (hpath : first :: (below ++ [name]) ∈ x.type.names) (hself : first ≠ "Self")
    (hgeneric : first ∉ x.generics)
    (hbound : (f.checkIn (surroundingsOf t roots imports) a.importPath).scope.binding? first =
      some (.package owner)) :
    let target := (f.checkIn (surroundingsOf t roots imports) a.importPath).target x.generics
      (first :: (below ++ [name]))
    (first ∈ externalRoots → target = .external (first :: (below ++ [name]))) ∧
    (first ∉ externalRoots → (∀ segments, target ≠ .external segments) ∧
      (target = .declared (pathText (owner :: below)) name ∧
          p.DeclaresType (pathText (owner :: below)) name ∨
        ∃ d ∈ p.diagnostics, d.package = a.importPath ∧ d.file = some f.path ∧ d.line = x.line)) := by
  have hrest : below ++ [name] ≠ [] := by simp
  refine ⟨fun hroot => ?_, fun hroot => ⟨fun segments => ?_, ?_⟩⟩
  · exact congrArg Prod.fst (Scope.resolvePath_of_external hroot hgeneric hrest)
  · rw [FileCheck.target, Scope.resolvePath_of_joined hself hgeneric hrest]
    exact Scope.resolveJoined_ne_external hroot hbound (below ++ [name]) segments
  · rcases Scope.declared_or_problem_of_bound (s := surroundingsOf t roots imports) hself hgeneric hroot
      hbound below name with ⟨htarget, hdeclares⟩ | hproblem
    · exact .inl ⟨congrArg Prod.fst htarget, declaresType_of_surroundings h hdeclares⟩
    · obtain ⟨problem, hmem⟩ := List.exists_mem_of_ne_nil _ hproblem
      rw [packages_of_load h] at ha
      obtain ⟨y, hy, rfl⟩ := List.mem_map.1 ha
      exact .inr ⟨_, mem_diagnostics_of_mem_problems h hy hf hx hpath hmem, rfl, rfl, rfl⟩

/-! ## An import with a reserved name -/

/-- A package that is imported twice, once under the name of the standard library. -/
def renamedTree : FileTree :=
  .ofTexts [(["a", "x.rs"], "use b as std;\nuse b as c;\n#[model]\npub struct A { pub x: (std::T, c::T) }"),
    (["b", "x.rs"], "pub struct T;")]

/-- A file of the load as it is checked. -/
def renamedCheck (a : Package) (f : SourceFile) : FileCheck :=
  f.checkIn (surroundingsOf renamedTree rootOnly ⟨["a"]⟩) a.importPath

/-- Both names are bound to the package, and nothing is told of the paths. -/
theorem exists_renamed_program : ∃ p, load renamedTree rootOnly ⟨["a"]⟩ .tolerant = .ok p ∧
    p.diagnostics = [] ∧ ∃ a ∈ p.packages, ∃ f ∈ a.files, ∃ x ∈ f.unit.placedTypes, x.generics = [] ∧
      ["std", "T"] ∈ x.type.names ∧ ["c", "T"] ∈ x.type.names ∧
      (renamedCheck a f).scope.binding? "std" = some (.package "b") ∧
      (renamedCheck a f).scope.binding? "c" = some (.package "b") := by
  refine exists_load (by simp) ?_
  unfold renamedCheck
  rw [surroundingsOf_counted]
  decide +kernel

/-- The first path stands for itself, the second for the type. -/
theorem load_imports_bind_renamed : ∃ p, load renamedTree rootOnly ⟨["a"]⟩ .tolerant = .ok p ∧
    ∃ a ∈ p.packages, ∃ f ∈ a.files, ∃ x ∈ f.unit.placedTypes,
      (renamedCheck a f).target x.generics ["std", "T"] = .external ["std", "T"] ∧
      (renamedCheck a f).target x.generics ["c", "T"] = .declared "b" "T" := by
  obtain ⟨p, hp, hnil, a, ha, f, hf, x, hx, hgenerics, hstd, hc, hstdbound, hcbound⟩ :=
    exists_renamed_program
  have hgeneric : ∀ name, name ∉ x.generics := fun name => hgenerics ▸ List.not_mem_nil
  refine ⟨p, hp, a, ha, f, hf, x, hx, ?_, ?_⟩
  · exact (load_imports_bind hp ha hf hx [] hstd (by decide) (hgeneric _) hstdbound).1 (by decide)
  · obtain ⟨-, hdeclared | ⟨d, hd, -⟩⟩ :=
      (load_imports_bind hp ha hf hx [] hc (by decide) (hgeneric _) hcbound).2 (by decide)
    · exact hdeclared.1
    · rw [hnil] at hd
      exact absurd hd List.not_mem_nil

/-- **Not every path behind the name of a package is resolved in packages.** -/
theorem not_forall_imports_bind : ¬ ∀ (t : FileTree) (roots : SourceRoots) (imports : ImportSet)
    (mode : LoadMode) (p : Program), load t roots imports mode = .ok p → ∀ a ∈ p.packages, ∀ f ∈ a.files,
      ∀ x ∈ f.unit.placedTypes, ∀ first below name owner, first :: (below ++ [name]) ∈ x.type.names →
        first ≠ "Self" → first ∉ x.generics →
        (f.checkIn (surroundingsOf t roots imports) a.importPath).scope.binding? first =
          some (.package owner) →
        (∃ q item, (f.checkIn (surroundingsOf t roots imports) a.importPath).target x.generics
            (first :: (below ++ [name])) = .declared q item) ∨
          ∃ d ∈ p.diagnostics, d.line = x.line := by
  intro himports
  obtain ⟨p, hp, hnil, a, ha, f, hf, x, hx, hgenerics, hpath, -, hbound, -⟩ := exists_renamed_program
  have hgeneric : "std" ∉ x.generics := hgenerics ▸ List.not_mem_nil
  rcases himports _ _ _ _ p hp a ha f hf x hx "std" [] "T" "b" hpath (by decide) hgeneric hbound with
    ⟨q, item, htarget⟩ | ⟨d, hd, -⟩
  · rw [FileCheck.target, Scope.resolvePath_of_external (by decide) hgeneric (by simp)] at htarget
    simp at htarget
  · rw [hnil] at hd
    exact absurd hd List.not_mem_nil

end Program

end ModelPool
