import ModelPool.Files.Texts
import ModelPool.Proofs.Walk.Steps

/-!
# Proofs/Walk/Recursion — the loop of a walk is a recursion

    loop        [f, …, b]  ─▸  …  ─▸  [b]  ─▸  …  ─▸  []
    recursion   explore the rest of f, list f, … , explore the rest of b, list b

The walk keeps its stack by itself.  The same walk is a recursion: to explore a path that has not been
entered, enter it, explore the imports of its package one after the other, and list the package.
`Explores` is this recursion as a relation between the walk before and after, so a call that would not
come back relates nothing.  It says by itself what is visited, listed and told: the walk of the loop is not
mentioned in it.

* `Step.size_lt` — a step of the loop takes from what is pending and on the stack.
* `StackExplores.of_step` — what is left to explore before a step is what is left after it.
* `records_iff` — what is told of a path that is entered.
* `visit_explores` — in a tree of files the loop ends, with what the recursion leaves.
-/

namespace ModelPool

namespace ImportGraph

variable {g : ImportGraph}

/-! ## The recursion -/

/-- **What is told of a path that is entered**: a package that is not there only where a load starts from it,
one that cannot be read, or else the syntax errors of its files and the names that are in conflict. -/
inductive Records (path : String) : Bool → Found → List Diagnostic → Prop
  | missing : Records path true .missing
      [⟨.missingPackage, path, none, 0, "cannot find package " ++ ("`" ++ path ++ "`") ++ " in any source root"⟩]
  | missingImport : Records path false .missing []
  | unreadable {initial file cause} : Records path initial (.unreadable (.unreadable file cause))
      [⟨.unreadable, path, some file, 0, (PackageError.unreadable file cause).message⟩]
  | unlistable {initial dir cause} : Records path initial (.unreadable (.unlistable dir cause))
      [⟨.unreadable, path, some dir, 0, (PackageError.unlistable dir cause).message⟩]
  | refused {initial e} (hfile : ∀ file cause, e ≠ .unreadable file cause)
      (hdir : ∀ dir cause, e ≠ .unlistable dir cause) : Records path initial (.unreadable e)
      [⟨.unreadable, path, none, 0, e.message⟩]
  | package {initial info} : Records path initial (.package info)
      ((info.files.flatMap fun f => f.unit.syntaxErrors.map fun e => ⟨.syntaxError, path, some f.path, e.line,
          "syntax error at column " ++ toString e.column ++ ": " ++ e.message⟩) ++
        info.declaredNames.tail.map fun other => ⟨.packageName, path, none, 0,
          "found packages " ++ info.declaredNames.headD "" ++ " and " ++ other ++ " in " ++ info.dir.text⟩)

mutual

/-- **Exploring a path** takes one walk to another. -/
inductive Explores (g : ImportGraph) : Bool → String → Walk → Walk → Prop
  /-- The path has been entered before. -/
  | seen {initial path w} (hv : path ∈ w.visited) : Explores g initial path w w
  /-- No package is behind the path. -/
  | leaf {initial path w told} (hv : path ∉ w.visited) (hl : ∀ info, g.lookup path ≠ .package info)
      (ht : Records path initial (g.lookup path) told) :
      Explores g initial path w ⟨path :: w.visited, w.loaded, w.diagnostics ++ told⟩
  /-- The imports of the package are explored before it is listed. -/
  | package {initial path info w told w'} (hv : path ∉ w.visited) (hl : g.lookup path = .package info)
      (ht : Records path initial (.package info) told)
      (himports : ExploresAll g info.imports ⟨path :: w.visited, w.loaded, w.diagnostics ++ told⟩ w') :
      Explores g initial path w ⟨w'.visited, w'.loaded ++ [(path, info)], w'.diagnostics⟩

/-- Exploring imports one after the other. -/
inductive ExploresAll (g : ImportGraph) : List String → Walk → Walk → Prop
  | nil {w} : ExploresAll g [] w w
  | cons {path paths w w' w''} (h : Explores g false path w w') (hrest : ExploresAll g paths w' w'') :
      ExploresAll g (path :: paths) w w''

end

/-- **The loop tells the same** of a path that it enters. -/
theorem records_iff {path : String} {initial : Bool} {found : Found} {told : List Diagnostic} :
    Records path initial found told ↔ told = found.diagnostics path initial := by
  constructor
  · rintro (_ | _ | _ | _ | ⟨hfile, hdir⟩ | _)
    case refused e =>
      cases e with
      | unreadable file cause => exact absurd rfl (hfile file cause)
      | unlistable dir cause => exact absurd rfl (hdir dir cause)
      | _ => rfl
    case package info =>
      unfold Found.diagnostics
      dsimp only
      split
      · next hnames => rw [hnames]; rfl
      · next hnames => rw [hnames]; rfl
    all_goals rfl
  · rintro rfl
    cases found with
    | missing => cases initial with
      | false => exact .missingImport
      | true => exact .missing
    | unreadable e => cases e with
      | unreadable file cause => exact .unreadable
      | unlistable dir cause => exact .unlistable
      | _ => exact .refused (by simp) (by simp)
    | package info =>
      have hrecords := @Records.package path initial info
      unfold Found.diagnostics
      dsimp only
      split
      · next hnames => rw [hnames] at hrecords; exact hrecords
      · next hnames => rw [hnames] at hrecords; exact hrecords

/-- **The recursion leaves one walk only.** -/
theorem Explores.unique {initial : Bool} {path : String} {w v v' : Walk}
    (h : g.Explores initial path w v) (h' : g.Explores initial path w v') : v = v' := by
  -- by recursion on how the first walk is reached, the imports of a package included
  refine @Explores.rec g
    (fun initial path w v _ => ∀ v', g.Explores initial path w v' → v = v')
    (fun paths w v _ => ∀ v', g.ExploresAll paths w v' → v = v')
    ?seen ?leaf ?package ?nil ?cons _ _ _ _ h v' h'
  case seen =>
    intro initial path w hv v' h'
    cases h' with
    | seen _ => rfl
    | leaf hv' _ _ => exact absurd hv hv'
    | package hv' _ _ _ => exact absurd hv hv'
  case leaf =>
    intro initial path w told hv hl ht v' h'
    cases h' with
    | seen hv' => exact absurd hv' hv
    | leaf _ _ ht' => rw [records_iff.1 ht, records_iff.1 ht']
    | package _ hl' _ _ => exact absurd hl' (hl _)
  case package =>
    intro initial path info w told w' hv hl ht _ ih v' h'
    cases h' with
    | seen hv' => exact absurd hv' hv
    | leaf _ hl' _ => exact absurd hl (hl' _)
    | package _ hl' ht' himports =>
      obtain rfl := Found.package.inj (hl.symm.trans hl')
      obtain rfl := (records_iff.1 ht).trans (records_iff.1 ht').symm
      rw [ih _ himports]
  case nil =>
    intro w v' h'
    cases h'
    rfl
  case cons =>
    intro path paths w w' w'' _ _ ih ihrest v' h'
    cases h' with
    | cons h' hrest =>
      obtain rfl := ih _ h'
      exact ihrest _ hrest

/-! ## The loop -/

/-- What the loop works on: the stack, and the walk so far. -/
abbrev State (g : ImportGraph) := List g.Frame × Walk

/-- **One turn of the loop**: a step that starts from no path. -/
def Leads (g : ImportGraph) (a b : g.State) : Prop := Step [] a.1 a.2 b.1 b.2

/-- The state in which the loop begins. -/
def entered (g : ImportGraph) (w : Walk) (path : String) : g.State :=
  if path ∈ w.visited then ([], w)
  else
    match hfound : g.lookup path with
    | .package info => ([.ofPackage g path info hfound], w.enter path true (.package info))
    | found => ([], w.enter path true found)

theorem visit_of_package {w : Walk} {path : String} {info : PackageInfo} (hv : path ∉ w.visited)
    (hl : g.lookup path = .package info) :
    g.visit w path = g.follow [.ofPackage g path info hl] (w.enter path true (.package info)) := by
  unfold visit
  rw [if_neg hv]
  split
  · next info' hl' =>
    obtain rfl := Found.package.inj (hl.symm.trans hl')
    rfl
  · next hl' => exact absurd hl (hl' info)

theorem visit_of_leaf {w : Walk} {path : String} (hv : path ∉ w.visited)
    (hl : ∀ info, g.lookup path ≠ .package info) :
    g.visit w path = w.enter path true (g.lookup path) := by
  unfold visit
  rw [if_neg hv]
  split
  · next info hl' => exact absurd hl' (hl info)
  · rfl

theorem visit_eq_follow_entered (w : Walk) (path : String) :
    g.visit w path = g.follow (g.entered w path).1 (g.entered w path).2 := by
  unfold entered
  split
  · next hv => rw [visit, if_pos hv, follow]
  · next hv =>
    split
    · next info hl => exact visit_of_package hv hl
    · next hl => rw [visit_of_leaf hv hl, follow]

/-- **A step takes from what is pending and on the stack.** -/
theorem Step.size_lt {stack stack' : List g.Frame} {w w' : Walk} (h : Step [] stack w stack' w') :
    g.pending w'.visited + stackSize stack' < g.pending w.visited + stackSize stack := by
  cases h with
  | start hs _ _ => exact absurd hs List.not_mem_nil
  | startLeaf hs _ _ => exact absurd hs List.not_mem_nil
  | seen hr _ =>
    simp only [stackSize, Frame.tail_rest, hr, List.tail_cons, List.length_cons]
    omega
  | @enter f q rest info below w hr hv hl =>
    have hmem : q ∈ g.importable () := f.mem_importable q (hr ▸ List.mem_cons_self)
    have hcost := g.pending_enter hmem hv
    simp only [cost, hl] at hcost
    simp only [stackSize, Frame.ofPackage_rest, Frame.tail_rest, hr, List.tail_cons,
      List.length_cons, Walk.enter]
    omega
  | @leaf f q rest below w hr hv hl =>
    have hpending := g.pending_cons_le w.visited q
    simp only [stackSize, Frame.tail_rest, hr, List.tail_cons, List.length_cons, Walk.enter]
    omega
  | list hr =>
    simp only [stackSize, Walk.list]
    omega

/-- **No loop turns for ever.** -/
theorem wellFounded_leads (g : ImportGraph) : WellFounded fun a b : g.State => g.Leads b a :=
  Subrelation.wf (fun h => Step.size_lt h)
    (measure fun a : g.State => g.pending a.2.visited + stackSize a.1).wf

/-- The loop turns until its stack is empty. -/
theorem leads_follow (stack : List g.Frame) (w : Walk) :
    Relation.ReflTransGen g.Leads (stack, w) ([], g.follow stack w) :=
  follow_induction (I := fun stack' w' => Relation.ReflTransGen g.Leads (stack, w) (stack', w'))
    (fun hs h => h.tail hs) stack w .refl

/-! ## The loop against the recursion -/

/-- **What a stack leaves to explore**: the rest of each package on it, which is listed then. -/
inductive StackExplores (g : ImportGraph) : List g.Frame → Walk → Walk → Prop
  | nil {w} : StackExplores g [] w w
  | cons {f : g.Frame} {below w w' w''} (hrest : g.ExploresAll f.rest w w')
      (hbelow : StackExplores g below (w'.list f.path f.info) w'') :
      StackExplores g (f :: below) w w''

namespace StackExplores

variable {f : g.Frame} {q : String} {rest : List String} {below : List g.Frame} {w w' v : Walk}

/-- One more import is explored before what is left. -/
theorem cons_of_explores (hr : f.rest = q :: rest) (hq : g.Explores false q w w')
    (h : g.StackExplores (f.tail :: below) w' v) : g.StackExplores (f :: below) w v := by
  cases h with
  | cons hrest hbelow =>
    rw [Frame.tail_rest, hr, List.tail_cons] at hrest
    exact .cons (hr ▸ .cons hq hrest) hbelow

/-- **A step keeps what is left to explore**, read from its end. -/
theorem of_step {stack stack' : List g.Frame} (hs : Step [] stack w stack' w')
    (h : g.StackExplores stack' w' v) : g.StackExplores stack w v := by
  cases hs with
  | start hs _ _ => exact absurd hs List.not_mem_nil
  | startLeaf hs _ _ => exact absurd hs List.not_mem_nil
  | seen hr hv => exact h.cons_of_explores hr (.seen hv)
  | enter hr hv hl =>
    -- the package on top explores its imports, and is listed: the exploration of its path
    cases h with
    | cons himports h => exact h.cons_of_explores hr (.package hv hl (records_iff.2 rfl) himports)
  | leaf hr hv hl => exact h.cons_of_explores hr (.leaf hv hl (records_iff.2 rfl))
  | list hr => exact .cons (hr ▸ .nil) h

theorem of_leads {a : g.State} (h : Relation.ReflTransGen g.Leads a ([], v)) :
    g.StackExplores a.1 a.2 v := by
  induction h using Relation.ReflTransGen.head_induction_on with
  | refl => exact .nil
  | head hs _ ih => exact of_step hs ih

/-- What the beginning leaves to explore is the path. -/
theorem explores {path : String} (h : g.StackExplores (g.entered w path).1 (g.entered w path).2 v) :
    g.Explores true path w v := by
  unfold entered at h
  split at h
  · next hv => cases h; exact .seen hv
  · next hv =>
    split at h
    · next info hl =>
      cases h with
      | cons himports hbelow => cases hbelow; exact .package hv hl (records_iff.2 rfl) himports
    · next hl => cases h; exact .leaf hv hl (records_iff.2 rfl)

end StackExplores

/-- **The walk from a path is the recursion.** -/
theorem visit_eq_iff {w w' : Walk} {path : String} :
    g.visit w path = w' ↔ g.Explores true path w w' := by
  have hvisit : g.Explores true path w (g.visit w path) := by
    rw [visit_eq_follow_entered]
    exact (StackExplores.of_leads (leads_follow _ _)).explores
  exact ⟨fun h => h ▸ hvisit, fun h => hvisit.unique h⟩

/-- The loop can end with nothing else. -/
theorem leads_iff {w w' : Walk} {path : String} :
    Relation.ReflTransGen g.Leads (g.entered w path) ([], w') ↔ g.Explores true path w w' := by
  refine ⟨fun h => (StackExplores.of_leads h).explores, fun h => ?_⟩
  rw [← visit_eq_iff.2 h, visit_eq_follow_entered]
  exact leads_follow _ _

/-- **In a tree of files the loop ends, with what the recursion leaves**: whatever has been entered,
listed and found before, and however long the chains of imports are. -/
theorem visit_explores (t : FileTree) (roots : SourceRoots) :
    (WellFounded fun a b : (ofTree t roots).State => (ofTree t roots).Leads b a) ∧
      ∀ (w w' : Walk) (path : String),
        ((ofTree t roots).visit w path = w' ↔ (ofTree t roots).Explores true path w w') ∧
        (Relation.ReflTransGen (ofTree t roots).Leads ((ofTree t roots).entered w path) ([], w') ↔
          (ofTree t roots).Explores true path w w') :=
  ⟨wellFounded_leads _, fun _ _ _ => ⟨visit_eq_iff, leads_iff⟩⟩

/-- Two packages that import each other, the second of them with a sign that belongs nowhere. -/
def cyclicTree : FileTree :=
  .ofTexts [(["a", "x.rs"], "use b;\nuse gone;"), (["b", "x.rs"], "use a;\n@\n")]

/-- From the first package the cycle is explored once, and the package that closes it is listed first. -/
theorem visit_explores_cyclic : ∃ w',
    (ofTree cyclicTree (.ofFramework cyclicTree ⟨"/"⟩ [])).Explores true "a" .start w' ∧
      w'.visited = ["gone", "b", "a"] ∧ w'.loaded.map Prod.fst = ["b", "a"] ∧
      w'.diagnostics =
        [⟨.syntaxError, "b", some ⟨"/b/x.rs"⟩, 2, "syntax error at column 1: unexpected `@`"⟩] :=
  ⟨_, (((visit_explores cyclicTree (.ofFramework cyclicTree ⟨"/"⟩ [])).2 .start _ "a").1).1 rfl,
    by decide +kernel⟩

end ImportGraph

end ModelPool
