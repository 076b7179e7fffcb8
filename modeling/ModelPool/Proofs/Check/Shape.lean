import Mathlib.Data.List.Forall2
import ModelPool.Proofs.Check.Signatures

/-!
# Proofs/Check/Shape — resolving keeps the shape of a type

Two types have one shape if they differ in nothing but the names at their paths: lifetimes, `mut`, the
lengths of arrays, `dyn` and `impl`, kept texts and the number of arguments everywhere are the same.  A
type is known from its shape and its names in the order in which they are visited, so the shape and the
targets pin down what a type is resolved to:

```
            paths
       t ──────────▶ p₁, …, pₙ
       │                │        each path by itself
       ▼                ▼
    resolved ──────▶ g₁, …, gₙ
            targets
```

* `eq_map_iff` — a type is another with its names changed exactly if both have one shape and the names
  visited are the changed ones.
* `render_congr` — only the texts of its names matter for the text of a type.
* `FileCheck.resolve_keepsShape` — **the resolved type is the one of the shape whose targets are those of the
  paths**, in the order in which the paths are visited; what is wrong with them is told in that order.
-/

namespace ModelPool

namespace Ty

variable {ρ σ : Type}

/-! ## Types of one shape -/

/-- **One shape** — the two types are built alike, part by part, whatever stands at their paths. -/
inductive SameShape : Ty ρ → Ty σ → Prop where
  | path (name : ρ) (target : σ) {args : List (Ty ρ)} {args' : List (Ty σ)}
      (h : List.Forall₂ SameShape args args') : SameShape (path name args) (path target args')
  | reference (lifetime : Option String) (mutable : Bool) {inner : Ty ρ} {inner' : Ty σ}
      (h : SameShape inner inner') :
      SameShape (reference lifetime mutable inner) (reference lifetime mutable inner')
  | slice {element : Ty ρ} {element' : Ty σ} (h : SameShape element element') :
      SameShape (slice element) (slice element')
  | array {element : Ty ρ} {element' : Ty σ} (h : SameShape element element') (length : String) :
      SameShape (array element length) (array element' length)
  | tuple {elements : List (Ty ρ)} {elements' : List (Ty σ)}
      (h : List.Forall₂ SameShape elements elements') : SameShape (tuple elements) (tuple elements')
  | traitObject (keyword : String) {bound : Ty ρ} {bound' : Ty σ} (h : SameShape bound bound') :
      SameShape (traitObject keyword bound) (traitObject keyword bound')
  | verbatim (text : String) : SameShape (verbatim text) (verbatim text)

mutual

/-- Changing names keeps the shape. -/
theorem sameShape_map (f : ρ → σ) : ∀ t : Ty ρ, t.SameShape (t.map f)
  | path name args => .path name (f name) (sameShape_mapAll f args)
  | reference lifetime mutable inner => .reference lifetime mutable (sameShape_map f inner)
  | slice element => .slice (sameShape_map f element)
  | array element length => .array (sameShape_map f element) length
  | tuple elements => .tuple (sameShape_mapAll f elements)
  | traitObject keyword bound => .traitObject keyword (sameShape_map f bound)
  | verbatim text => .verbatim text

theorem sameShape_mapAll (f : ρ → σ) : ∀ ts : List (Ty ρ), List.Forall₂ SameShape ts (mapAll f ts)
  | [] => .nil
  | t :: r => .cons (sameShape_map f t) (sameShape_mapAll f r)

end

mutual

/-- **Types of one shape have equally many names.** -/
theorem SameShape.length_names : ∀ {t : Ty ρ} {u : Ty σ}, t.SameShape u → t.names.length = u.names.length
  | _, _, .path _ _ h => by
    rw [names_path, names_path, List.length_cons, List.length_cons, length_namesAll h]
  | _, _, .reference _ _ h => h.length_names
  | _, _, .slice h => h.length_names
  | _, _, .array h _ => h.length_names
  | _, _, .tuple h => length_namesAll h
  | _, _, .traitObject _ h => h.length_names
  | _, _, .verbatim _ => rfl

theorem length_namesAll : ∀ {ts : List (Ty ρ)} {us : List (Ty σ)}, List.Forall₂ SameShape ts us →
    (namesAll ts).length = (namesAll us).length
  | _, _, .nil => rfl
  | _, _, .cons hfirst hrest => by
    rw [namesAll_cons, namesAll_cons, List.length_append, List.length_append, hfirst.length_names,
      length_namesAll hrest]

end

mutual

/-- **A type is known from its shape and its names** in the order in which they are visited. -/
theorem SameShape.eq_map {f : ρ → σ} : ∀ {t : Ty ρ} {u : Ty σ}, t.SameShape u →
    u.names = t.names.map f → u = t.map f
  | path name args, _, .path _ target h, hnames => by
    rw [names_path, names_path, List.map_cons] at hnames
    obtain ⟨htarget, hargs⟩ := List.cons.inj hnames
    rw [map, htarget, eq_mapAll h hargs]
  | reference _ _ _, _, .reference _ _ h, hnames => by rw [map, h.eq_map hnames]
  | slice _, _, .slice h, hnames => by rw [map, h.eq_map hnames]
  | array _ _, _, .array h _, hnames => by rw [map, h.eq_map hnames]
  | tuple _, _, .tuple h, hnames => by rw [map, eq_mapAll h hnames]
  | traitObject _ _, _, .traitObject _ h, hnames => by rw [map, h.eq_map hnames]
  | verbatim _, _, .verbatim _, _ => by rw [map]

theorem eq_mapAll {f : ρ → σ} : ∀ {ts : List (Ty ρ)} {us : List (Ty σ)}, List.Forall₂ SameShape ts us →
    namesAll us = (namesAll ts).map f → us = mapAll f ts
  | [], _, .nil, _ => by rw [mapAll]
  | t :: r, u :: r', .cons hfirst hrest, hnames => by
    rw [namesAll_cons, namesAll_cons, List.map_append] at hnames
    -- the names of the first two types are equally many, so the row of names is cut at one place
    have hlength : u.names.length = (t.names.map f).length := by
      rw [List.length_map, hfirst.length_names]
    obtain ⟨hnamesFirst, hnamesRest⟩ := List.append_inj hnames hlength
    rw [mapAll, hfirst.eq_map hnamesFirst, eq_mapAll hrest hnamesRest]

end

/-- **A type is another one with its names changed** exactly if both have one shape and the names that are
visited are the changed ones. -/
theorem eq_map_iff {f : ρ → σ} {t : Ty ρ} {u : Ty σ} :
    u = t.map f ↔ t.SameShape u ∧ u.names = t.names.map f := by
  constructor
  · rintro rfl
    exact ⟨sameShape_map f t, names_map f t⟩
  · rintro ⟨hshape, hnames⟩
    exact hshape.eq_map hnames

/-- **Only the texts of its names matter** for the text of a type. -/
theorem render_congr {f g : ρ → String} {t : Ty ρ} (h : ∀ n ∈ t.names, f n = g n) :
    t.render f = t.render g := by
  have hrender : ∀ shown : ρ → String, (t.map shown).render id = t.render shown := fun _ => render_map t
  rw [← hrender f, ← hrender g, (map_eq_map_iff t).2 h]

end Ty

/-! ## Resolved types -/

namespace FileCheck

/-- **Resolving keeps the shape of a type.**  The resolved type is the one type of the shape whose targets are,
in the order in which they are visited, those of the paths of the type; what each path has against it is told
in that order; and where every target is displayed as its path was written, so is the whole type. -/
theorem resolve_keepsShape (c : FileCheck) (generics : List String) (line : Nat) (t : TypeExpr) :
    (∀ u : ResolvedType, u = (c.resolve generics line t).value ↔
      t.SameShape u ∧ ResolvedType.targets u =
        t.paths.map fun p => (c.scope.resolvePath c.surroundings generics p.1).1) ∧
    (c.resolve generics line t).found =
      t.paths.flatMap (fun p => (c.scope.resolvePath c.surroundings generics p.1).2.map
        (·.inFile c.scope.package c.file line)) ∧
    ((∀ p ∈ t.paths, (c.scope.resolvePath c.surroundings generics p.1).1.text = pathText p.1) →
      ResolvedType.text (c.resolve generics line t).value = t.text) := by
  refine ⟨fun u => ?_, ?_, fun hshown => ?_⟩
  · have hnames : t.names.map (c.target generics) =
        t.paths.map fun p => (c.scope.resolvePath c.surroundings generics p.1).1 := List.map_map
    rw [value_resolve, Ty.eq_map_iff, hnames, ResolvedType.targets]
  · rw [found_resolve, foundIn, Ty.names, List.flatMap_map]
  · have hnames : ∀ path ∈ t.names, (c.target generics path).text = pathText path :=
      List.forall_mem_map.2 hshown
    rw [value_resolve, ResolvedType.text, Ty.render_map, TypeExpr.text, Ty.render_congr hnames]

/-- A file without imports, in a program that declares nothing. -/
def bareFile : FileCheck := ⟨⟨fun _ => .unresolved, fun _ => none⟩, ⟨"a", [], []⟩, ⟨"a/x.rs"⟩⟩

/-- A type with paths at several depths, two of which lead nowhere in a bare file. -/
def nestedType : TypeExpr :=
  .tuple [.path ["c", "C"] [.path ["Option"] [.path ["d", "D"] []]],
    .reference (some "a") true (.array (.path ["T"] []) "2")]

theorem resolve_keepsShape_nested :
    (∀ p ∈ nestedType.paths,
      (bareFile.scope.resolvePath bareFile.surroundings ["T"] p.1).1.text = pathText p.1) ∧
    ResolvedType.targets (bareFile.resolve ["T"] 3 nestedType).value =
      [.unresolved ["c", "C"], .builtin "Option", .unresolved ["d", "D"], .generic "T"] ∧
    (bareFile.resolve ["T"] 3 nestedType).found.map Diagnostic.text =
      ["a/x.rs:3: cannot resolve type path `c::C`", "a/x.rs:3: cannot resolve type path `d::D`"] ∧
    ResolvedType.text (bareFile.resolve ["T"] 3 nestedType).value =
      "(c::C<Option<d::D>>, &'a mut [T; 2])" := by
  obtain ⟨hvalue, hfound, htext⟩ := resolve_keepsShape bareFile ["T"] 3 nestedType
  have hshown := List.map_inj_left.1 (show
    nestedType.paths.map (fun p => (bareFile.scope.resolvePath bareFile.surroundings ["T"] p.1).1.text) =
      nestedType.paths.map fun p => pathText p.1 by decide +kernel)
  refine ⟨hshown, ((hvalue _).1 rfl).2.trans ?_, ?_, (htext hshown).trans ?_⟩
  · decide +kernel
  · rw [hfound]
    decide +kernel
  · decide +kernel

end FileCheck

end ModelPool
