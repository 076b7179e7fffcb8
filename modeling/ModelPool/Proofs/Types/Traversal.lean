import ModelPool.Program.Reported
import ModelPool.Type

/-!
# Proofs/Types/Traversal — what visiting the names of a type gives

Visiting replaces each name by the outcome of a step and leaves all other parts as they are.  So what
results is the type with its names changed, and two ways to change them give one type exactly if they
agree on every name.

* `value_traverse`, `found_traverse` — steps that report.
* `map_eq_map_iff` — when two changes give the same.
* `eq_of_map_eq` — when a change gives the same of two types.
* `map_map_eq_self_iff` — when a change is undone by another.
-/

namespace ModelPool

namespace Ty

variable {ρ σ : Type}

/-! ## Induction -/

/-- **What holds of a type as soon as it holds of its parts** holds of every type. -/
@[elab_as_elim]
theorem partsInduction {P : Ty ρ → Prop} (path : ∀ name args, (∀ t ∈ args, P t) → P (path name args))
    (reference : ∀ lifetime mutable inner, P inner → P (reference lifetime mutable inner))
    (slice : ∀ element, P element → P (slice element))
    (array : ∀ element length, P element → P (array element length))
    (tuple : ∀ elements, (∀ t ∈ elements, P t) → P (tuple elements))
    (traitObject : ∀ keyword bound, P bound → P (traitObject keyword bound))
    (verbatim : ∀ text, P (verbatim text)) (t : Ty ρ) : P t :=
  @Ty.rec ρ P (fun ts => ∀ t ∈ ts, P t) path reference slice array tuple traitObject verbatim
    (fun _ h => absurd h List.not_mem_nil) (fun _ _ ht hr => List.forall_mem_cons.2 ⟨ht, hr⟩) t

/-! ## Changing names -/

mutual

/-- **The type with its names changed**; all other parts stay. -/
def map (f : ρ → σ) : Ty ρ → Ty σ
  | path name args => path (f name) (mapAll f args)
  | reference lifetime mutable inner => reference lifetime mutable (map f inner)
  | slice element => slice (map f element)
  | array element length => array (map f element) length
  | tuple elements => tuple (mapAll f elements)
  | traitObject keyword bound => traitObject keyword (map f bound)
  | verbatim text => verbatim text

/-- The same for several types. -/
def mapAll (f : ρ → σ) : List (Ty ρ) → List (Ty σ)
  | [] => []
  | t :: r => map f t :: mapAll f r

end

/-- The names of several types. -/
def namesAll (ts : List (Ty ρ)) : List ρ := (pathsAll ts).map Prod.fst

@[simp] theorem namesAll_nil : namesAll ([] : List (Ty ρ)) = [] := rfl

theorem namesAll_cons (t : Ty ρ) (r : List (Ty ρ)) : namesAll (t :: r) = t.names ++ namesAll r :=
  List.map_append

theorem mem_namesAll {name : ρ} {ts : List (Ty ρ)} : name ∈ namesAll ts ↔ ∃ t ∈ ts, name ∈ t.names := by
  induction ts with
  | nil => simp
  | cons t r ih => simp [namesAll_cons, ih]

@[simp] theorem names_path (name : ρ) (args : List (Ty ρ)) :
    (path name args).names = name :: namesAll args := rfl

@[simp] theorem names_reference (lifetime : Option String) (mutable : Bool) (inner : Ty ρ) :
    (reference lifetime mutable inner).names = inner.names := rfl

@[simp] theorem names_slice (element : Ty ρ) : (slice element).names = element.names := rfl

@[simp] theorem names_array (element : Ty ρ) (length : String) :
    (array element length).names = element.names := rfl

@[simp] theorem names_tuple (elements : List (Ty ρ)) : (tuple elements).names = namesAll elements := rfl

@[simp] theorem names_traitObject (keyword : String) (bound : Ty ρ) :
    (traitObject keyword bound).names = bound.names := rfl

@[simp] theorem names_verbatim (text : String) : (verbatim text : Ty ρ).names = [] := rfl

mutual

/-- **Two changes give one type exactly if they agree on its names.** -/
theorem map_eq_map_iff {f g : ρ → σ} : ∀ t : Ty ρ, t.map f = t.map g ↔ ∀ n ∈ t.names, f n = g n
  | path name args => by
    rw [names_path, List.forall_mem_cons, ← mapAll_eq_mapAll_iff args]
    simp [map]
  | reference _ _ inner => by simp [map, ← map_eq_map_iff inner]
  | slice element => by simp [map, ← map_eq_map_iff element]
  | array element _ => by simp [map, ← map_eq_map_iff element]
  | tuple elements => by simp [map, ← mapAll_eq_mapAll_iff elements]
  | traitObject _ bound => by simp [map, ← map_eq_map_iff bound]
  | verbatim _ => by simp [map]

theorem mapAll_eq_mapAll_iff {f g : ρ → σ} :
    ∀ ts : List (Ty ρ), mapAll f ts = mapAll g ts ↔ ∀ n ∈ namesAll ts, f n = g n
  | [] => by simp [mapAll]
  | t :: r => by
    rw [namesAll_cons, List.forall_mem_append, ← map_eq_map_iff t, ← mapAll_eq_mapAll_iff r]
    simp [mapAll]

end

mutual

/-- **Types that become one by a change are one** if it keeps their names apart. -/
theorem eq_of_map_eq {f : ρ → σ} : ∀ {t u : Ty ρ}, t.map f = u.map f →
    (∀ a ∈ t.names, ∀ b ∈ u.names, f a = f b → a = b) → t = u
  | path name args, u, h, hinj => by
    cases u with
    | path name' args' =>
      obtain ⟨hname, hargs⟩ := path.inj h
      have hsame := eq_of_mapAll_eq hargs fun a ha b hb =>
        hinj a (List.mem_cons_of_mem _ ha) b (List.mem_cons_of_mem _ hb)
      rw [hinj name List.mem_cons_self name' List.mem_cons_self hname, hsame]
    | _ => simp [map] at h
  | reference lifetime mutable inner, u, h, hinj => by
    cases u with
    | reference lifetime' mutable' inner' =>
      obtain ⟨rfl, rfl, hinner⟩ := reference.inj h
      rw [eq_of_map_eq hinner hinj]
    | _ => simp [map] at h
  | slice element, u, h, hinj => by
    cases u with
    | slice element' => rw [eq_of_map_eq (slice.inj h) hinj]
    | _ => simp [map] at h
  | array element length, u, h, hinj => by
    cases u with
    | array element' length' =>
      obtain ⟨helement, rfl⟩ := array.inj h
      rw [eq_of_map_eq helement hinj]
    | _ => simp [map] at h
  | tuple elements, u, h, hinj => by
    cases u with
    | tuple elements' => rw [eq_of_mapAll_eq (tuple.inj h) hinj]
    | _ => simp [map] at h
  | traitObject keyword bound, u, h, hinj => by
    cases u with
    | traitObject keyword' bound' =>
      obtain ⟨rfl, hbound⟩ := traitObject.inj h
      rw [eq_of_map_eq hbound hinj]
    | _ => simp [map] at h
  | verbatim text, u, h, _ => by
    cases u with
    | verbatim text' => rw [verbatim.inj h]
    | _ => simp [map] at h

theorem eq_of_mapAll_eq {f : ρ → σ} : ∀ {ts us : List (Ty ρ)}, mapAll f ts = mapAll f us →
    (∀ a ∈ namesAll ts, ∀ b ∈ namesAll us, f a = f b → a = b) → ts = us
  | [], us, h, _ => by
    cases us with
    | nil => rfl
    | cons u r => simp [mapAll] at h
  | t :: r, us, h, hinj => by
    cases us with
    | nil => simp [mapAll] at h
    | cons u r' =>
      obtain ⟨hfirst, hrest⟩ := List.cons.inj h
      rw [namesAll_cons, namesAll_cons] at hinj
      rw [eq_of_map_eq hfirst fun a ha b hb =>
          hinj a (List.mem_append_left _ ha) b (List.mem_append_left _ hb),
        eq_of_mapAll_eq hrest fun a ha b hb =>
          hinj a (List.mem_append_right _ ha) b (List.mem_append_right _ hb)]

end

mutual

/-- Two changes of names are one. -/
theorem map_map {τ : Type} (f : ρ → σ) (g : σ → τ) : ∀ t : Ty ρ, (t.map f).map g = t.map fun n => g (f n)
  | path _ args => by simp [map, mapAll_mapAll f g args]
  | reference _ _ inner => by simp [map, map_map f g inner]
  | slice element => by simp [map, map_map f g element]
  | array element _ => by simp [map, map_map f g element]
  | tuple elements => by simp [map, mapAll_mapAll f g elements]
  | traitObject _ bound => by simp [map, map_map f g bound]
  | verbatim _ => by simp [map]

theorem mapAll_mapAll {τ : Type} (f : ρ → σ) (g : σ → τ) :
    ∀ ts : List (Ty ρ), mapAll g (mapAll f ts) = mapAll (fun n => g (f n)) ts
  | [] => by simp [mapAll]
  | t :: r => by simp [mapAll, map_map f g t, mapAll_mapAll f g r]

end

mutual

/-- **A type whose names are changed and changed back** is the type exactly if each of its names is. -/
theorem map_map_eq_self_iff {f : ρ → σ} {g : σ → ρ} :
    ∀ t : Ty ρ, (t.map f).map g = t ↔ ∀ n ∈ t.names, g (f n) = n
  | path name args => by
    rw [names_path, List.forall_mem_cons, ← mapAll_mapAll_eq_self_iff args]
    simp [map]
  | reference _ _ inner => by simp [map, ← map_map_eq_self_iff inner]
  | slice element => by simp [map, ← map_map_eq_self_iff element]
  | array element _ => by simp [map, ← map_map_eq_self_iff element]
  | tuple elements => by simp [map, ← mapAll_mapAll_eq_self_iff elements]
  | traitObject _ bound => by simp [map, ← map_map_eq_self_iff bound]
  | verbatim _ => by simp [map]

theorem mapAll_mapAll_eq_self_iff {f : ρ → σ} {g : σ → ρ} :
    ∀ ts : List (Ty ρ), mapAll g (mapAll f ts) = ts ↔ ∀ n ∈ namesAll ts, g (f n) = n
  | [] => by simp [mapAll]
  | t :: r => by
    rw [namesAll_cons, List.forall_mem_append, ← map_map_eq_self_iff t, ← mapAll_mapAll_eq_self_iff r]
    simp [mapAll]

end

mutual

/-- The names of a type with its names changed. -/
theorem names_map (f : ρ → σ) : ∀ t : Ty ρ, (t.map f).names = t.names.map f
  | path _ args => by simp [map, namesAll_mapAll f args]
  | reference _ _ inner => by simp [map, names_map f inner]
  | slice element => by simp [map, names_map f element]
  | array element _ => by simp [map, names_map f element]
  | tuple elements => by simp [map, namesAll_mapAll f elements]
  | traitObject _ bound => by simp [map, names_map f bound]
  | verbatim _ => by simp [map]

theorem namesAll_mapAll (f : ρ → σ) :
    ∀ ts : List (Ty ρ), namesAll (mapAll f ts) = (namesAll ts).map f
  | [] => by simp [mapAll]
  | t :: r => by
    rw [mapAll, namesAll_cons, namesAll_cons, List.map_append, names_map f t, namesAll_mapAll f r]

end

/-! ## Steps that report -/

mutual

/-- **Visiting with steps that report** gives the type with the results in place of the names. -/
theorem value_traverse (f : ρ → Reported σ) :
    ∀ t : Ty ρ, (t.traverse f).value = t.map fun n => (f n).value
  | path name args => by simp [traverse, map, value_traverseAll f args]
  | reference _ _ inner => by simp [traverse, map, value_traverse f inner]
  | slice element => by simp [traverse, map, value_traverse f element]
  | array element _ => by simp [traverse, map, value_traverse f element]
  | tuple elements => by simp [traverse, map, value_traverseAll f elements]
  | traitObject _ bound => by simp [traverse, map, value_traverse f bound]
  | verbatim _ => by simp [traverse, map]

theorem value_traverseAll (f : ρ → Reported σ) :
    ∀ ts : List (Ty ρ), (traverseAll f ts).value = mapAll (fun n => (f n).value) ts
  | [] => by simp [traverseAll, mapAll]
  | t :: r => by simp [traverseAll, mapAll, value_traverse f t, value_traverseAll f r]

end

mutual

/-- **And finds what its steps find**, name by name. -/
theorem found_traverse (f : ρ → Reported σ) :
    ∀ t : Ty ρ, (t.traverse f).found = t.names.flatMap fun n => (f n).found
  | path name args => by simp [traverse, found_traverseAll f args]
  | reference _ _ inner => by simp [traverse, found_traverse f inner]
  | slice element => by simp [traverse, found_traverse f element]
  | array element _ => by simp [traverse, found_traverse f element]
  | tuple elements => by simp [traverse, found_traverseAll f elements]
  | traitObject _ bound => by simp [traverse, found_traverse f bound]
  | verbatim _ => by simp [traverse]

theorem found_traverseAll (f : ρ → Reported σ) :
    ∀ ts : List (Ty ρ), (traverseAll f ts).found = (namesAll ts).flatMap fun n => (f n).found
  | [] => by simp [traverseAll]
  | t :: r => by
    simp [traverseAll, namesAll_cons, found_traverse f t, found_traverseAll f r]

end

/-! ## Printing -/

/-- A changed type prints as its names do. -/
theorem render_map {f : ρ → σ} {textOf : σ → String} (t : Ty ρ) :
    (t.map f).render textOf = t.render fun n => textOf (f n) := by
  have hall : ∀ ts : List (Ty ρ), (∀ t ∈ ts, (t.map f).render textOf = t.render fun n => textOf (f n)) →
      renderAll textOf (mapAll f ts) = renderAll (fun n => textOf (f n)) ts := by
    intro ts
    induction ts with
    | nil => simp [mapAll, renderAll]
    | cons t r ih =>
      intro h
      obtain ⟨ht, hr⟩ := List.forall_mem_cons.1 h
      simp [mapAll, renderAll, ht, ih hr]
  induction t using partsInduction with
  | path name args ih => simp [map, render, hall args ih]
  | reference lifetime mutable inner ih => simp [map, render, ih]
  | slice element ih => simp [map, render, ih]
  | array element length ih => simp [map, render, ih]
  | tuple elements ih => simp [map, render, hall elements ih]
  | traitObject keyword bound ih => simp [map, render, ih]
  | verbatim text => simp [map, render]

end Ty

end ModelPool
