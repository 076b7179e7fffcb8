import ModelPool.Proofs.Load.Part
import ModelPool.Proofs.Run.Agreement

/-!
# Proofs/Run/Alone — when the pool of a run loads by itself

    second load    a, pool   ──▸   a, b, c, pool     no problems
    by itself         pool   ──▸      b,    pool     b refers to c without importing it

A run that ends well has loaded the pool together with what the run is for.  A path is resolved in whatever
is loaded, imported by its own file or not, so a package may rest on an import of a package that the pool does
not reach.  The pool loads by itself exactly if no package that it reaches does so.

* `run_pool_alone_iff` — when the pool loads by itself.
* `not_forall_pool_alone` — it need not.
-/

namespace ModelPool

open FileTree

namespace RunConfig

variable {c : RunConfig} {t : FileTree}

namespace TwoPasses

/-- What files can refer to when the pool is loaded by itself. -/
def alone (p : TwoPasses c t) : Surroundings :=
  Program.surroundingsOf (c.run t).tree (c.roots p.staged) ⟨[c.pool]⟩

/-- **The pool stands alone**: each file of each package that it reaches makes do with the packages that it
reaches. -/
def StandsAlone (p : TwoPasses c t) : Prop :=
  ∀ x ∈ (Program.walkOf (c.run t).tree (c.roots p.staged) ⟨[c.pool]⟩).loaded, ∀ f ∈ x.2.files,
    f.MakesDo p.alone p.after x.1

end TwoPasses

/-- **When the pool loads by itself.**  A run that ends well has loaded twice.  In the tree that it leaves,
the pool by itself can be loaded strictly exactly if it stands alone: every package that it reaches imports
items only of packages that it reaches, and the types in them stand, in the second load, for declarations of
such packages, or are names that a glob of such a package lends. -/
theorem run_pool_alone_iff (h : (c.run t).state = .done) (hempty : c.emptyPool = false) :
    Nonempty (TwoPasses c t) ∧ ∀ p : TwoPasses c t,
      (∃ alone, Program.load (c.run t).tree (c.roots p.staged) ⟨[c.pool]⟩ .strict = .ok alone) ↔
        p.StandsAlone := by
  refine ⟨exists_twoPasses h hempty, fun p => ?_⟩
  refine Program.load_part_iff p.second_eq (by simp) fun entry hentry => ?_
  rw [List.mem_singleton.1 hentry]
  exact mem_strictImports c _

/-! ## A package that rests on another one's import -/

/-- Three packages: the second refers to the third, but it is the first that imports it. -/
def strayingTree : FileTree :=
  .ofTexts [(["a", "x.rs"], "use b;\nuse c;\n#[model]\nstruct A { x: b::B }"),
    (["b", "x.rs"], "struct B { y: c::C }"), (["c", "x.rs"], "struct C;")]

/-- **The run ends well**, but the pool by itself does not load. -/
theorem exists_straying_outcome : ∃ o ∈ globbingConfig.outcome? strayingTree,
    (Program.countedLoad o.tree (globbingConfig.roots (strayingTree.stage globbingConfig.poolPath).1)
      ⟨[globbingConfig.pool]⟩ .strict).toOption = none := by
  decide +kernel

theorem straying_run : (globbingConfig.run strayingTree).state = .done := by
  obtain ⟨o, ho, -⟩ := exists_straying_outcome
  exact (done_of_outcome ho rfl).1

theorem not_load_straying (p : TwoPasses globbingConfig strayingTree) :
    ¬ ∃ alone, Program.load (globbingConfig.run strayingTree).tree (globbingConfig.roots p.staged)
      ⟨[globbingConfig.pool]⟩ .strict = .ok alone := by
  rintro ⟨alone, halone⟩
  obtain ⟨o, ho, hnone⟩ := exists_straying_outcome
  rw [Program.countedLoad_eq, ← (done_of_outcome ho rfl).2.1, p.stage_eq] at hnone
  dsimp only at hnone
  rw [halone] at hnone
  simp [Except.toOption] at hnone

/-- The second package does not make do with what the pool reaches. -/
theorem run_pool_alone_straying :
    ∃ p : TwoPasses globbingConfig strayingTree, ¬ p.StandsAlone := by
  obtain ⟨⟨p⟩, hiff⟩ := run_pool_alone_iff straying_run rfl
  exact ⟨p, fun halone => not_load_straying p ((hiff p).2 halone)⟩

/-- **The pool of a run that ends well need not load by itself.** -/
theorem not_forall_pool_alone : ¬ ∀ (c : RunConfig) (t : FileTree), (c.run t).state = .done →
    c.emptyPool = false → ∀ p : TwoPasses c t,
      ∃ alone, Program.load (c.run t).tree (c.roots p.staged) ⟨[c.pool]⟩ .strict = .ok alone := by
  intro hall
  obtain ⟨p⟩ := exists_twoPasses straying_run rfl
  exact not_load_straying p (hall globbingConfig strayingTree straying_run rfl p)

end RunConfig

end ModelPool
