import ModelPool.Proofs.Load.Packages
import ModelPool.Proofs.Walk.Counted

/-!
# Proofs/Load/Counted — loads that can be evaluated

A load walks the graph of imports, and the walk ends since something is taken from what is pending.  The same
load with the turns of its walk counted gives the same program, and is evaluated without reading the packages
that the walk does not reach.

* `exists_load` — the program of a load, in a form that can be evaluated.
* `countedLoad_eq` — the load with counted turns is the load.
-/

namespace ModelPool

open Text

namespace Program

/-- The walk of a load, with its first turns behind each import counted. -/
def countedWalk (t : FileTree) (roots : SourceRoots) (imports : ImportSet) : Walk :=
  (ImportGraph.ofTree t roots).walkFor 64 (imports.paths.map trimmed)

/-- **The program of a load**, with the turns of its walk counted. -/
def countedProgram (t : FileTree) (roots : SourceRoots) (imports : ImportSet) (mode : LoadMode) : Program :=
  ofWalk t roots imports mode (countedWalk t roots imports)

/-- A load with the turns of its walk counted. -/
def countedLoad (t : FileTree) (roots : SourceRoots) (imports : ImportSet) (mode : LoadMode) :
    Except LoadError Program :=
  if imports.isEmpty then .error .noPackages
  else
    let p := countedProgram t roots imports mode
    if mode = .strict ∧ p.hasErrors then .error (.strict p.diagnostics) else .ok p

variable {t : FileTree} {roots : SourceRoots} {imports : ImportSet} {mode : LoadMode}

theorem countedWalk_eq (t : FileTree) (roots : SourceRoots) (imports : ImportSet) :
    countedWalk t roots imports = walkOf t roots imports :=
  ImportGraph.walkFor_eq _ _ _

theorem surroundingsOf_counted (t : FileTree) (roots : SourceRoots) (imports : ImportSet) :
    surroundingsOf t roots imports = surroundings t roots (countedWalk t roots imports).loaded := by
  rw [countedWalk_eq, surroundingsOf]

/-- **Where a load gives a program**, it is the one with counted turns. -/
theorem load_eq_ok_counted (hne : imports.paths ≠ [])
    (hstrict : mode = .strict → (countedProgram t roots imports mode).diagnostics = []) :
    load t roots imports mode = .ok (countedProgram t roots imports mode) :=
  load_eq_ok_iff.2 ⟨hne, by rw [countedProgram, countedWalk_eq], hstrict⟩

/-- **A program is loaded** with what can be evaluated of it. -/
theorem exists_load {P : Program → Prop} (hne : imports.paths ≠ [])
    (h : (mode = .strict → (countedProgram t roots imports mode).diagnostics = []) ∧
      P (countedProgram t roots imports mode)) : ∃ p, load t roots imports mode = .ok p ∧ P p :=
  ⟨_, load_eq_ok_counted hne h.1, h.2⟩

/-- **The load with counted turns is the load.** -/
theorem countedLoad_eq : countedLoad = load := by
  funext t roots imports mode
  simp only [countedLoad, countedProgram, countedWalk_eq]
  rfl

end Program

end ModelPool
