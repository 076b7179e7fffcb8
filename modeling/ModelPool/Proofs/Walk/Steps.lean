import Mathlib.Logic.Relation
import ModelPool.Program.ImportGraph

/-!
# Proofs/Walk/Steps — a walk as a sequence of steps

    begin ─▸ enter ─▸ … ─▸ enter ─▸ list ─▸ … ─▸ list
               └─ seen, pass ─┘

A walk enters a path that a load starts from, follows the imports of the packages on its stack, and lists
a package when none of its imports is left.  `Step` says what one step does to the stack and to the
walk, so an invariant is proved by one case for each kind of step.

* `walk_induction` — what holds before the first step and is kept by every step holds of the whole walk.
* `mem_visited_of_mem_starts` — every path that the walk starts from has been entered.
-/

namespace ModelPool

namespace ImportGraph

variable {g : ImportGraph} {starts : List String}

/-! ## Steps -/

/-- The package on the stack without the first of the imports that are left. -/
def Frame.tail (f : g.Frame) : g.Frame :=
  ⟨f.path, f.info, f.rest.tail, fun q hq => f.mem_importable q (List.mem_of_mem_tail hq)⟩

@[simp] theorem Frame.tail_path (f : g.Frame) : f.tail.path = f.path := rfl

@[simp] theorem Frame.tail_info (f : g.Frame) : f.tail.info = f.info := rfl

@[simp] theorem Frame.tail_rest (f : g.Frame) : f.tail.rest = f.rest.tail := rfl

@[simp] theorem Frame.ofPackage_path {path : String} {info : PackageInfo}
    (h : g.lookup path = .package info) : (Frame.ofPackage g path info h).path = path := rfl

@[simp] theorem Frame.ofPackage_info {path : String} {info : PackageInfo}
    (h : g.lookup path = .package info) : (Frame.ofPackage g path info h).info = info := rfl

@[simp] theorem Frame.ofPackage_rest {path : String} {info : PackageInfo}
    (h : g.lookup path = .package info) : (Frame.ofPackage g path info h).rest = info.imports := rfl

/-- No package is behind the path. -/
def IsLeaf (g : ImportGraph) (path : String) : Prop := ∀ info, g.lookup path ≠ .package info

/-- **One step of a walk** from some paths, on the stack and the walk. -/
inductive Step (starts : List String) : List g.Frame → Walk → List g.Frame → Walk → Prop
  /-- A package is entered that the load starts from. -/
  | start {path info w} (hs : path ∈ starts) (hv : path ∉ w.visited)
      (hl : g.lookup path = .package info) :
      Step starts [] w [.ofPackage g path info hl] (w.enter path true (.package info))
  /-- A path without a package is entered that the load starts from. -/
  | startLeaf {path w} (hs : path ∈ starts) (hv : path ∉ w.visited) (hl : g.IsLeaf path) :
      Step starts [] w [] (w.enter path true (g.lookup path))
  /-- An import has been entered before. -/
  | seen {f : g.Frame} {q rest below w} (hr : f.rest = q :: rest) (hv : q ∈ w.visited) :
      Step starts (f :: below) w (f.tail :: below) w
  /-- An import is entered that is a package. -/
  | enter {f : g.Frame} {q rest info below w} (hr : f.rest = q :: rest) (hv : q ∉ w.visited)
      (hl : g.lookup q = .package info) :
      Step starts (f :: below) w (.ofPackage g q info hl :: f.tail :: below)
        (w.enter q false (.package info))
  /-- An import is entered that is none. -/
  | leaf {f : g.Frame} {q rest below w} (hr : f.rest = q :: rest) (hv : q ∉ w.visited)
      (hl : g.IsLeaf q) :
      Step starts (f :: below) w (f.tail :: below) (w.enter q false (g.lookup q))
  /-- A package is listed. -/
  | list {f : g.Frame} {below w} (hr : f.rest = []) :
      Step starts (f :: below) w below (w.list f.path f.info)

section Induction

variable {I : List g.Frame → Walk → Prop}

/-- What every step keeps holds when the stack is empty. -/
theorem follow_induction
    (hstep : ∀ {stack w stack' w'}, Step starts stack w stack' w' → I stack w → I stack' w')
    (stack : List g.Frame) (w : Walk) (h : I stack w) : I [] (g.follow stack w) := by
  fun_induction follow g stack w with
  | case1 w => exact h
  | case2 w path info hmem below ih => exact ih (hstep (.list rfl) h)
  | case3 w path info q rest hmem below again hv ih =>
    exact ih (hstep (Step.seen (f := ⟨path, info, q :: rest, hmem⟩) rfl hv) h)
  | case4 w path info q rest hmem below again hv next hl ih =>
    exact ih (hstep (Step.enter (f := ⟨path, info, q :: rest, hmem⟩) rfl hv hl) h)
  | case5 w path info q rest hmem below again hv hl ih =>
    exact ih (hstep (Step.leaf (f := ⟨path, info, q :: rest, hmem⟩) rfl hv hl) h)

theorem visit_induction
    (hstep : ∀ {stack w stack' w'}, Step starts stack w stack' w' → I stack w → I stack' w')
    {path : String} (hs : path ∈ starts) (w : Walk) (h : I [] w) : I [] (g.visit w path) := by
  unfold visit
  split
  · exact h
  · next hv =>
    split
    · next info hl => exact follow_induction hstep _ _ (hstep (.start hs hv hl) h)
    · next hl => exact hstep (.startLeaf hs hv hl) h

/-- **What holds at first and is kept by every step holds of the whole walk.** -/
theorem walk_induction
    (hstep : ∀ {stack w stack' w'}, Step starts stack w stack' w' → I stack w → I stack' w')
    (h : I [] .start) : I [] (g.walk starts) := by
  suffices hall : ∀ paths : List String, (∀ p ∈ paths, p ∈ starts) → ∀ w, I [] w →
      I [] (paths.foldl g.visit w) from hall starts (fun _ hp => hp) _ h
  intro paths
  induction paths with
  | nil => exact fun _ _ hw => hw
  | cons p paths ih =>
    intro hp w hw
    exact ih (fun q hq => hp q (List.mem_cons_of_mem _ hq)) _
      (visit_induction hstep (hp p List.mem_cons_self) w hw)

end Induction

/-! ## Paths that have been entered -/

/-- A step forgets no path that has been entered. -/
theorem Step.visited_subset {stack stack' : List g.Frame} {w w' : Walk}
    (h : Step starts stack w stack' w') {p : String} (hp : p ∈ w.visited) : p ∈ w'.visited := by
  cases h <;> first | exact hp | exact List.mem_cons_of_mem _ hp

theorem mem_visited_visit {w : Walk} {p : String} (hp : p ∈ w.visited) (path : String) :
    p ∈ (g.visit w path).visited :=
  @visit_induction g [path] (fun _ w => p ∈ w.visited) (fun hs hw => hs.visited_subset hw)
    path List.mem_cons_self w hp

/-- A path is entered when it is visited. -/
theorem mem_visited_visit_self (w : Walk) (path : String) : path ∈ (g.visit w path).visited := by
  unfold visit
  split
  · assumption
  · split
    · refine @follow_induction g [] (fun _ w => path ∈ w.visited)
        (fun hs hw => hs.visited_subset hw) _ _ ?_
      exact List.mem_cons_self
    · exact List.mem_cons_self

/-- **Every path that the walk starts from is entered.** -/
theorem mem_visited_of_mem_starts {p : String} (hp : p ∈ starts) :
    p ∈ (g.walk starts).visited := by
  suffices hall : ∀ paths : List String, ∀ w, (p ∈ w.visited ∨ p ∈ paths) →
      p ∈ (paths.foldl g.visit w).visited from hall starts _ (.inr hp)
  intro paths
  induction paths with
  | nil => exact fun w hw => hw.resolve_right List.not_mem_nil
  | cons q paths ih =>
    rintro w (hw | hw)
    · exact ih _ (.inl (mem_visited_visit hw q))
    · rcases List.mem_cons.1 hw with rfl | hw
      · exact ih _ (.inl (mem_visited_visit_self w p))
      · exact ih _ (.inr hw)

end ImportGraph

end ModelPool
