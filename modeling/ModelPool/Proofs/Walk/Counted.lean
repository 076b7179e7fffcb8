import ModelPool.Proofs.Walk.Recursion

/-!
# Proofs/Walk/Counted — walks with counted turns

    follow        goes on while something is pending
    followFor n   counts n turns down, and then goes on like it

What is pending is known when every package of a tree has been read, so whoever evaluates a walk evaluates
that first.  With its turns counted, a walk is evaluated by reading the packages that it reaches.

* `walkFor_eq` — a walk with counted turns is the walk.
-/

namespace ModelPool

namespace ImportGraph

variable {g : ImportGraph}

/-- **A turn of the loop keeps what the loop comes to.** -/
theorem Step.follow_eq {stack stack' : List g.Frame} {w w' : Walk} (h : Step [] stack w stack' w') :
    g.follow stack w = g.follow stack' w' := by
  cases h with
  | start hs _ _ => exact absurd hs List.not_mem_nil
  | startLeaf hs _ _ => exact absurd hs List.not_mem_nil
  | @seen f q rest below _ hr hv =>
    obtain ⟨path, info, left, hmem⟩ := f
    obtain rfl : left = q :: rest := hr
    rw [follow, if_pos hv]
    rfl
  | @enter f q rest next below _ hr hv hl =>
    obtain ⟨path, info, left, hmem⟩ := f
    obtain rfl : left = q :: rest := hr
    rw [follow, if_neg hv]
    split
    · next next' hl' =>
      obtain rfl := Found.package.inj (hl.symm.trans hl')
      rfl
    · next hl' => exact absurd hl (hl' next)
  | @leaf f q rest below _ hr hv hl =>
    obtain ⟨path, info, left, hmem⟩ := f
    obtain rfl : left = q :: rest := hr
    rw [follow, if_neg hv]
    split
    · next next hl' => exact absurd hl' (hl next)
    · rfl
  | @list f below _ hr =>
    obtain ⟨path, info, left, hmem⟩ := f
    obtain rfl : left = [] := hr
    rw [follow]

/-- **A turn of the loop as a function**: what it does with the package on top of the stack. -/
def turn (g : ImportGraph) (f : g.Frame) (below : List g.Frame) (w : Walk) : g.State :=
  match f.rest with
  | [] => (below, w.list f.path f.info)
  | q :: _ =>
    if q ∈ w.visited then (f.tail :: below, w)
    else
      match hfound : g.lookup q with
      | .package next => (.ofPackage g q next hfound :: f.tail :: below, w.enter q false (.package next))
      | found => (f.tail :: below, w.enter q false found)

theorem leads_turn (f : g.Frame) (below : List g.Frame) (w : Walk) : g.Leads (f :: below, w) (g.turn f below w) := by
  unfold turn
  split
  · next hr => exact .list hr
  · next q rest hr =>
    split
    · next hv => exact .seen hr hv
    · next hv =>
      split
      · next next hl => exact .enter hr hv hl
      · next hl => exact .leaf hr hv hl

/-- **Follows the imports of the packages on the stack**, with the first turns counted. -/
def followFor (g : ImportGraph) : Nat → List g.Frame → Walk → Walk
  | 0, stack, w => g.follow stack w
  | _ + 1, [], w => w
  | n + 1, f :: below, w => g.followFor n (g.turn f below w).1 (g.turn f below w).2

/-- **Counting the turns makes no difference.** -/
theorem followFor_eq (turns : Nat) (stack : List g.Frame) (w : Walk) :
    g.followFor turns stack w = g.follow stack w := by
  induction turns generalizing stack w with
  | zero => rfl
  | succ n ih =>
    cases stack with
    | nil => rw [followFor, follow]
    | cons f below =>
      rw [followFor, ih]
      exact (leads_turn f below w).follow_eq.symm

/-- Walks from a path that a load starts from, with the first turns counted. -/
def visitFor (g : ImportGraph) (turns : Nat) (w : Walk) (path : String) : Walk :=
  g.followFor turns (g.entered w path).1 (g.entered w path).2

/-- The walk from several paths, with the first turns behind each of them counted. -/
def walkFor (g : ImportGraph) (turns : Nat) (paths : List String) : Walk :=
  paths.foldl (g.visitFor turns) .start

/-- **A walk with counted turns is the walk.** -/
theorem walkFor_eq (g : ImportGraph) (turns : Nat) (paths : List String) :
    g.walkFor turns paths = g.walk paths := by
  have hvisit : g.visitFor turns = g.visit := by
    funext w path
    rw [visitFor, followFor_eq, visit_eq_follow_entered]
  rw [walkFor, walk, hvisit]

end ImportGraph

end ModelPool
