import ModelPool.Proofs.Walk.Listed

/-!
# Proofs/Walk/Order — dependencies are listed first, up to cycles

    stack   f ─▸ … ─▸ b          each package is imported by the one below it
    list    f                    its imports have been entered: listed, on the stack, or no packages

A package is listed when none of its imports is left.  Each import that is a package has been listed
before, or it stands on the stack; and what stands on the stack reaches the package at the top, so the
two lie on a cycle.

* `listed_before_or_reaches` — the law for the whole walk.
-/

namespace ModelPool

namespace ImportGraph

variable {g : ImportGraph} {starts : List String}

/-- Imports lead from one path to the other. -/
abbrev Reaches (g : ImportGraph) : String → String → Prop := Relation.ReflTransGen g.Imports

/-- An import at a position of a list of packages stands before it or reaches it. -/
def BeforeOrReaches (g : ImportGraph) (loaded : List (String × PackageInfo)) : Prop :=
  ∀ i x, loaded[i]? = some x → ∀ q ∈ x.2.imports, ¬ g.IsLeaf q →
    q ∈ (loaded.take i).map Prod.fst ∨ g.Reaches q x.1

/-- One more package at the end has to keep the law for itself only. -/
theorem BeforeOrReaches.append {loaded : List (String × PackageInfo)} (h : g.BeforeOrReaches loaded)
    {x : String × PackageInfo}
    (hx : ∀ q ∈ x.2.imports, ¬ g.IsLeaf q → q ∈ loaded.map Prod.fst ∨ g.Reaches q x.1) :
    g.BeforeOrReaches (loaded ++ [x]) := by
  intro i y hy q hq hleaf
  rcases Nat.lt_trichotomy i loaded.length with hi | rfl | hi
  · rw [List.getElem?_append_left hi] at hy
    rw [List.take_append_of_le_length (Nat.le_of_lt hi)]
    exact h i y hy q hq hleaf
  · obtain rfl : x = y := by simpa using hy
    rw [List.take_left]
    exact hx q hq hleaf
  · rw [List.getElem?_eq_none (by rw [List.length_append, List.length_singleton]; omega)] at hy
    exact absurd hy (by simp)

/-- **The invariant of the order**: the stack is a chain of imports, and the packages listed keep the
law. -/
structure Ordered (starts : List String) (stack : List g.Frame) (w : Walk) : Prop where
  traced : Traced starts stack w
  chain : (stack.map Frame.path).Pairwise fun p below => g.Reaches below p
  listed : g.BeforeOrReaches w.loaded

namespace Ordered

variable {stack stack' : List g.Frame} {w w' : Walk}

/-- An import of the topmost package is reached from everything on the stack. -/
theorem reaches_of_mem_rest {f : g.Frame} {below : List g.Frame}
    (h : Ordered starts (f :: below) w) {q : String} (hq : q ∈ f.rest) :
    ∀ p ∈ (f :: below).map Frame.path, g.Reaches p q := by
  have himports : g.Imports f.path q :=
    ⟨f.info, h.traced.met.lookup _ (mem_met_of_mem_stack List.mem_cons_self),
      h.traced.followed.rest_mem f List.mem_cons_self q hq⟩
  intro p hp
  rcases List.mem_cons.1 hp with rfl | hp
  · exact .single himports
  · exact ((List.pairwise_cons.1 h.chain).1 p hp).tail himports

/-- **The topmost package keeps the law when it is listed.** -/
theorem before_or_reaches_top {f : g.Frame} {below : List g.Frame}
    (h : Ordered starts (f :: below) w) (hr : f.rest = []) :
    ∀ q ∈ f.info.imports, ¬ g.IsLeaf q → q ∈ w.loaded.map Prod.fst ∨ g.Reaches q f.path := by
  intro q hq hleaf
  have hv : q ∈ w.visited := by
    have hor := h.traced.followed.rest_or_visited f List.mem_cons_self q hq
    rw [hr] at hor
    exact hor.resolve_left List.not_mem_nil
  obtain ⟨info, hl⟩ : ∃ info, g.lookup q = .package info := by
    simpa [IsLeaf] using hleaf
  have hmet := h.traced.met.complete q hv info hl
  rw [met, List.mem_append] at hmet
  rcases hmet with hmet | hmet
  · obtain ⟨b, hb, hbq⟩ := List.mem_map.1 hmet
    obtain ⟨rfl, -⟩ := Prod.mk.inj hbq
    rcases List.mem_cons.1 hb with rfl | hb
    · exact .inr .refl
    · exact .inr ((List.pairwise_cons.1 h.chain).1 _ (List.mem_map_of_mem hb))
  · exact .inl (List.mem_map_of_mem (f := Prod.fst) hmet)

theorem step (hs : Step starts stack w stack' w') (h : Ordered starts stack w) :
    Ordered starts stack' w' := by
  have htraced := h.traced.step hs
  cases hs with
  | start _ _ _ => exact ⟨htraced, List.pairwise_singleton _ _, h.listed⟩
  | startLeaf _ _ _ => exact ⟨htraced, h.chain, h.listed⟩
  | seen _ _ => exact ⟨htraced, h.chain, h.listed⟩
  | enter hr _ _ =>
    refine ⟨htraced, List.pairwise_cons.2 ⟨?_, h.chain⟩, h.listed⟩
    exact h.reaches_of_mem_rest (hr ▸ List.mem_cons_self)
  | leaf _ _ _ => exact ⟨htraced, h.chain, h.listed⟩
  | list hr =>
    exact ⟨htraced, (List.pairwise_cons.1 h.chain).2,
      h.listed.append (h.before_or_reaches_top hr)⟩

end Ordered

/-- **An import of a listed package is listed before it or reaches it**, where it is a package. -/
theorem listed_before_or_reaches (g : ImportGraph) (starts : List String) :
    g.BeforeOrReaches (g.walk starts).loaded := by
  have h : Ordered starts ([] : List g.Frame) (g.walk starts) :=
    walk_induction (I := Ordered starts) Ordered.step
      ⟨⟨Met.start g, Followed.start g, fun _ hp => absurd hp List.not_mem_nil⟩, List.Pairwise.nil,
        fun _ _ hx => absurd hx (by simp [Walk.start])⟩
  exact h.listed

end ImportGraph

end ModelPool
