import Mathlib.Data.List.Nodup
import ModelPool.Proofs.Walk.Steps

/-!
# Proofs/Walk/Listed — the packages that a walk lists

A package is *met* when it is entered: it stands on the stack, and later among the listed ones.  Three
invariants say what a walk knows at any time.

* `Met` — the packages met are, each once, those behind the paths entered.
* `Followed` — an import of a package met has been entered, unless it is left on the stack.
* `reachable` — what has been entered is reachable from where the load starts.

At the end the stack is empty, so the packages met are those listed and no import is left:
`mem_loaded_walk` says which packages these are.  Of each path entered, what there is to tell has been told:
`tells_walk`.
-/

namespace ModelPool

namespace ImportGraph

variable {g : ImportGraph} {starts : List String}

/-! ## Reachability -/

/-- **The package behind one path imports the other.** -/
def Imports (g : ImportGraph) (p q : String) : Prop :=
  ∃ info, g.lookup p = .package info ∧ q ∈ info.imports

/-- The path is reached through imports from one that the load starts from. -/
def Reachable (g : ImportGraph) (starts : List String) (p : String) : Prop :=
  ∃ s ∈ starts, Relation.ReflTransGen g.Imports s p

theorem reachable_of_mem {p : String} (h : p ∈ starts) : g.Reachable starts p := ⟨p, h, .refl⟩

theorem Reachable.tail {p q : String} (h : g.Reachable starts p) (hq : g.Imports p q) :
    g.Reachable starts q := by
  obtain ⟨s, hs, hp⟩ := h
  exact ⟨s, hs, hp.tail hq⟩

/-! ## The packages met -/

/-- The packages on the stack and those listed, with their paths. -/
def met (stack : List g.Frame) (w : Walk) : List (String × PackageInfo) :=
  stack.map (fun f => (f.path, f.info)) ++ w.loaded

@[simp] theorem met_nil (w : Walk) : met ([] : List g.Frame) w = w.loaded := rfl

theorem met_cons (f : g.Frame) (below : List g.Frame) (w : Walk) :
    met (f :: below) w = (f.path, f.info) :: met below w := rfl

@[simp] theorem met_tail (f : g.Frame) (below : List g.Frame) (w : Walk) :
    met (f.tail :: below) w = met (f :: below) w := rfl

@[simp] theorem met_enter (stack : List g.Frame) (w : Walk) (path : String) (initial : Bool)
    (found : Found) : met stack (w.enter path initial found) = met stack w := rfl

/-- Listing a package moves it. -/
theorem met_list_perm (f : g.Frame) (below : List g.Frame) (w : Walk) :
    (met below (w.list f.path f.info)).Perm (met (f :: below) w) := by
  rw [met_cons, met, met, Walk.list, ← List.append_assoc]
  exact List.perm_append_singleton _ _

theorem mem_met_list {f : g.Frame} {below : List g.Frame} {w : Walk} {x : String × PackageInfo} :
    x ∈ met below (w.list f.path f.info) ↔ x ∈ met (f :: below) w :=
  (met_list_perm f below w).mem_iff

/-- A package on the stack has been met. -/
theorem mem_met_of_mem_stack {stack : List g.Frame} {w : Walk} {f : g.Frame} (h : f ∈ stack) :
    (f.path, f.info) ∈ met stack w :=
  List.mem_append_left _ (List.mem_map_of_mem h)

/-- **The packages met are those behind the paths entered**, each once. -/
structure Met (stack : List g.Frame) (w : Walk) : Prop where
  nodup : ((met stack w).map Prod.fst).Nodup
  entered : ∀ x ∈ met stack w, x.1 ∈ w.visited
  lookup : ∀ x ∈ met stack w, g.lookup x.1 = .package x.2
  complete : ∀ p ∈ w.visited, ∀ info, g.lookup p = .package info → (p, info) ∈ met stack w

namespace Met

variable {stack stack' : List g.Frame} {w w' : Walk}

/-- A package that is entered for the first time is put on the stack. -/
theorem push (h : Met stack w) {p : String} {info : PackageInfo} (initial : Bool)
    (hv : p ∉ w.visited) (hl : g.lookup p = .package info) :
    Met (.ofPackage g p info hl :: stack) (w.enter p initial (.package info)) where
  nodup := by
    rw [met_cons, List.map_cons, List.nodup_cons]
    refine ⟨fun hp => ?_, h.nodup⟩
    obtain ⟨x, hx, hxp⟩ := List.mem_map.1 hp
    exact hv ((show x.1 = p from hxp) ▸ h.entered x hx)
  entered := by
    intro x hx
    rcases List.mem_cons.1 hx with rfl | hx
    · exact List.mem_cons_self
    · exact List.mem_cons_of_mem _ (h.entered x hx)
  lookup := by
    intro x hx
    rcases List.mem_cons.1 hx with rfl | hx
    · exact hl
    · exact h.lookup x hx
  complete := by
    intro q hq info' hl'
    rcases List.mem_cons.1 hq with rfl | hq
    · obtain rfl : info = info' := by simpa [hl] using hl'
      exact List.mem_cons_self
    · exact List.mem_cons_of_mem _ (h.complete q hq info' hl')

/-- A path without a package changes nothing. -/
theorem pass (h : Met stack w) {p : String} (initial : Bool) (hl : g.IsLeaf p) (found : Found) :
    Met stack (w.enter p initial found) where
  nodup := h.nodup
  entered := fun x hx => List.mem_cons_of_mem _ (h.entered x hx)
  lookup := h.lookup
  complete := by
    intro q hq info hq'
    rcases List.mem_cons.1 hq with rfl | hq
    · exact absurd hq' (hl info)
    · exact h.complete q hq info hq'

theorem list {f : g.Frame} (h : Met (f :: stack) w) : Met stack (w.list f.path f.info) where
  nodup := ((met_list_perm f stack w).map Prod.fst).nodup_iff.2 h.nodup
  entered := fun x hx => h.entered x (mem_met_list.1 hx)
  lookup := fun x hx => h.lookup x (mem_met_list.1 hx)
  complete := fun p hp info hl => mem_met_list.2 (h.complete p hp info hl)

theorem tail {f : g.Frame} (h : Met (f :: stack) w) : Met (f.tail :: stack) w :=
  ⟨h.nodup, h.entered, h.lookup, h.complete⟩

theorem step (hs : Step starts stack w stack' w') (h : Met stack w) : Met stack' w' := by
  cases hs with
  | start _ hv hl => exact h.push true hv hl
  | startLeaf _ _ hl => exact h.pass true hl _
  | seen _ _ => exact h.tail
  | enter _ hv hl => exact h.tail.push false hv hl
  | leaf _ _ hl => exact h.tail.pass false hl _
  | list _ => exact h.list

theorem start (g : ImportGraph) : Met ([] : List g.Frame) .start :=
  ⟨List.nodup_nil, fun _ hx => absurd hx List.not_mem_nil, fun _ hx => absurd hx List.not_mem_nil,
    fun _ hp => absurd hp List.not_mem_nil⟩

end Met

/-! ## The imports followed -/

/-- **An import of a package met has been entered**, unless it is still left on the stack. -/
structure Followed (stack : List g.Frame) (w : Walk) : Prop where
  rest_mem : ∀ f ∈ stack, ∀ q ∈ f.rest, q ∈ f.info.imports
  rest_or_visited : ∀ f ∈ stack, ∀ q ∈ f.info.imports, q ∈ f.rest ∨ q ∈ w.visited
  visited : ∀ x ∈ w.loaded, ∀ q ∈ x.2.imports, q ∈ w.visited

namespace Followed

variable {stack stack' : List g.Frame} {w w' : Walk}

/-- Entering one more path keeps what has been followed. -/
theorem enter (h : Followed stack w) (p : String) (initial : Bool) (found : Found) :
    Followed stack (w.enter p initial found) where
  rest_mem := h.rest_mem
  rest_or_visited := fun f hf q hq => (h.rest_or_visited f hf q hq).imp_right (List.mem_cons_of_mem _)
  visited := fun x hx q hq => List.mem_cons_of_mem _ (h.visited x hx q hq)

theorem push (h : Followed stack w) {p : String} {info : PackageInfo}
    (hl : g.lookup p = .package info) : Followed (.ofPackage g p info hl :: stack) w where
  rest_mem := List.forall_mem_cons.2 ⟨fun _ hq => hq, h.rest_mem⟩
  rest_or_visited := List.forall_mem_cons.2 ⟨fun _ hq => .inl hq, h.rest_or_visited⟩
  visited := h.visited

/-- An import that has been entered need not be left. -/
theorem tail {f : g.Frame} {q : String} {rest : List String} (h : Followed (f :: stack) w)
    (hr : f.rest = q :: rest) (hq : q ∈ w.visited) : Followed (f.tail :: stack) w where
  rest_mem := by
    obtain ⟨hf, hbelow⟩ := List.forall_mem_cons.1 h.rest_mem
    exact List.forall_mem_cons.2 ⟨fun p hp => hf p (List.mem_of_mem_tail hp), hbelow⟩
  rest_or_visited := by
    obtain ⟨hf, hbelow⟩ := List.forall_mem_cons.1 h.rest_or_visited
    refine List.forall_mem_cons.2 ⟨fun p hp => ?_, hbelow⟩
    rcases hf p hp with hp | hp
    · rw [hr] at hp
      rcases List.mem_cons.1 hp with rfl | hp
      · exact .inr hq
      · exact .inl (by rw [Frame.tail_rest, hr]; exact hp)
    · exact .inr hp
  visited := h.visited

theorem list {f : g.Frame} (h : Followed (f :: stack) w) (hr : f.rest = []) :
    Followed stack (w.list f.path f.info) where
  rest_mem := (List.forall_mem_cons.1 h.rest_mem).2
  rest_or_visited := (List.forall_mem_cons.1 h.rest_or_visited).2
  visited := by
    intro x hx q hq
    rcases List.mem_append.1 hx with hx | hx
    · exact h.visited x hx q hq
    · obtain rfl := List.mem_singleton.1 hx
      have hor := h.rest_or_visited f List.mem_cons_self q hq
      rw [hr] at hor
      exact hor.resolve_left List.not_mem_nil

theorem step (hs : Step starts stack w stack' w') (h : Followed stack w) : Followed stack' w' := by
  cases hs with
  | start _ _ hl => exact (h.enter _ _ _).push hl
  | startLeaf _ _ _ => exact h.enter _ _ _
  | seen hr hv => exact h.tail hr hv
  | enter hr _ hl => exact ((h.enter _ _ _).tail hr List.mem_cons_self).push hl
  | leaf hr _ _ => exact (h.enter _ _ _).tail hr List.mem_cons_self
  | list hr => exact h.list hr

theorem start (g : ImportGraph) : Followed ([] : List g.Frame) .start :=
  ⟨fun _ hf => absurd hf List.not_mem_nil, fun _ hf => absurd hf List.not_mem_nil,
    fun _ hx => absurd hx List.not_mem_nil⟩

end Followed

/-! ## Reachability of what has been entered -/

/-- The invariants that say where a path on the stack comes from. -/
structure Traced (starts : List String) (stack : List g.Frame) (w : Walk) : Prop where
  met : Met stack w
  followed : Followed stack w
  reachable : ∀ p ∈ w.visited, g.Reachable starts p

namespace Traced

variable {stack stack' : List g.Frame} {w w' : Walk}

/-- An import that is left on the stack is reachable. -/
theorem reachable_rest (h : Traced starts stack w) {f : g.Frame} (hf : f ∈ stack) {q : String}
    {rest : List String} (hr : f.rest = q :: rest) : g.Reachable starts q := by
  have hmet := mem_met_of_mem_stack (w := w) hf
  refine (h.reachable _ (h.met.entered _ hmet)).tail ⟨f.info, h.met.lookup _ hmet, ?_⟩
  exact h.followed.rest_mem f hf q (hr ▸ List.mem_cons_self)

theorem step (hs : Step starts stack w stack' w') (h : Traced starts stack w) :
    Traced starts stack' w' := by
  refine ⟨h.met.step hs, h.followed.step hs, ?_⟩
  cases hs with
  | start hs _ _ => exact List.forall_mem_cons.2 ⟨reachable_of_mem hs, h.reachable⟩
  | startLeaf hs _ _ => exact List.forall_mem_cons.2 ⟨reachable_of_mem hs, h.reachable⟩
  | seen _ _ => exact h.reachable
  | enter hr _ _ =>
    exact List.forall_mem_cons.2 ⟨h.reachable_rest List.mem_cons_self hr, h.reachable⟩
  | leaf hr _ _ =>
    exact List.forall_mem_cons.2 ⟨h.reachable_rest List.mem_cons_self hr, h.reachable⟩
  | list _ => exact h.reachable

theorem walk (g : ImportGraph) (starts : List String) :
    Traced starts ([] : List g.Frame) (g.walk starts) :=
  walk_induction (I := Traced starts) step
    ⟨Met.start g, Followed.start g, fun _ hp => absurd hp List.not_mem_nil⟩

end Traced

/-! ## The listed packages -/

/-- No package is listed twice. -/
theorem nodup_loaded_walk (g : ImportGraph) (starts : List String) :
    ((g.walk starts).loaded.map Prod.fst).Nodup := (Traced.walk g starts).met.nodup

theorem mem_visited_of_reachable {p : String} (h : g.Reachable starts p) :
    p ∈ (g.walk starts).visited := by
  have hw := Traced.walk g starts
  obtain ⟨s, hs, hp⟩ := h
  induction hp with
  | refl => exact mem_visited_of_mem_starts hs
  | tail _ hstep ih =>
    obtain ⟨info, hl, hq⟩ := hstep
    exact hw.followed.visited _ (hw.met.complete _ ih info hl) _ hq

/-- **The packages listed are those that can be reached.** -/
theorem mem_loaded_walk {p : String} {info : PackageInfo} :
    (p, info) ∈ (g.walk starts).loaded ↔ g.lookup p = .package info ∧ g.Reachable starts p := by
  have hw := Traced.walk g starts
  constructor
  · intro h
    exact ⟨hw.met.lookup _ h, hw.reachable _ (hw.met.entered _ h)⟩
  · rintro ⟨hl, hp⟩
    exact hw.met.complete p (mem_visited_of_reachable hp) info hl

/-! ## What is told -/

/-- **What a walk has told**: of each path that it has entered, what there is to tell, and nothing else. -/
structure Tells (g : ImportGraph) (w : Walk) : Prop where
  told : ∀ path ∈ w.visited, ∃ initial, ∀ d ∈ (g.lookup path).diagnostics path initial, d ∈ w.diagnostics
  only : ∀ d ∈ w.diagnostics, ∃ path ∈ w.visited, ∃ initial, d ∈ (g.lookup path).diagnostics path initial

namespace Tells

variable {w w' : Walk} {stack stack' : List g.Frame}

theorem enter (h : g.Tells w) {path : String} {found : Found} (hl : g.lookup path = found) (initial : Bool) :
    g.Tells (w.enter path initial found) where
  told := by
    refine List.forall_mem_cons.2 ⟨⟨initial, fun d hd => List.mem_append_right _ (hl ▸ hd)⟩, fun q hq => ?_⟩
    obtain ⟨begun, htold⟩ := h.told q hq
    exact ⟨begun, fun d hd => List.mem_append_left _ (htold d hd)⟩
  only := by
    refine List.forall_mem_append.2 ⟨fun d hd => ?_, fun d hd => ⟨path, List.mem_cons_self, initial, hl ▸ hd⟩⟩
    obtain ⟨q, hq, htold⟩ := h.only d hd
    exact ⟨q, List.mem_cons_of_mem _ hq, htold⟩

theorem step (hs : Step starts stack w stack' w') (h : g.Tells w) : g.Tells w' := by
  cases hs with
  | start _ _ hl => exact h.enter hl true
  | startLeaf _ _ _ => exact h.enter rfl true
  | seen _ _ => exact h
  | enter _ _ hl => exact h.enter hl false
  | leaf _ _ _ => exact h.enter rfl false
  | list _ => exact ⟨h.told, h.only⟩

end Tells

/-- **What a walk has told of packages** is what there is to tell of those that it has reached. -/
theorem tells_walk (g : ImportGraph) (starts : List String) : g.Tells (g.walk starts) :=
  walk_induction (I := fun (_ : List g.Frame) w => g.Tells w) Tells.step
    ⟨fun _ h => absurd h List.not_mem_nil, fun _ h => absurd h List.not_mem_nil⟩

/-- **What there is to tell of a listed package is told.** -/
theorem mem_diagnostics_walk {p : String} {info : PackageInfo} (h : (p, info) ∈ (g.walk starts).loaded)
    {d : Diagnostic} (hd : ∀ initial, d ∈ (Found.package info).diagnostics p initial) :
    d ∈ (g.walk starts).diagnostics := by
  obtain ⟨hl, hp⟩ := mem_loaded_walk.1 h
  obtain ⟨initial, htold⟩ := (tells_walk g starts).told p (mem_visited_of_reachable hp)
  exact htold d (hl ▸ hd initial)

end ImportGraph

end ModelPool
