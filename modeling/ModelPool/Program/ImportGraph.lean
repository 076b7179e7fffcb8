import ModelPool.Program.Diagnostic

/-!
# Program/ImportGraph — the packages reached from an import path

    path ──lookup──▸ package ──imports──▸ paths ──lookup──▸ …

Packages are walked depth first, each path once.  The walk keeps a stack of packages whose imports are
still to be followed; a package is listed when all its imports have been, so it comes after them
unless they lie on a cycle.

The walk ends because the paths it may enter are finitely many: entering one takes from what is
pending more than its imports add to the stack.

* `pending_enter` — what entering a path takes from what is pending.
* `ImportGraph.ofTree` — the graph of the packages in a tree of files.
-/

namespace ModelPool

/-! ## Graphs -/

/-- What stands behind an import path. -/
inductive Found where
  | missing
  | unreadable (error : PackageError)
  | package (info : PackageInfo)

/-- **A graph of imports.**  The paths that its packages import lie in a list, which is only asked
for where the end of a walk has to be shown. -/
structure ImportGraph where
  lookup : String → Found
  importable : Unit → List String
  mem_importable : ∀ path info, lookup path = .package info → ∀ q ∈ info.imports, q ∈ importable ()

/-- The graph of the packages under source roots. -/
def SourceRoots.found (t : FileTree) (roots : SourceRoots) (path : String) : Found :=
  match roots.find? t path with
  | none => .missing
  | some dir =>
    match PackageInfo.read t roots dir with
    | .error e => .unreadable e
    | .ok info => .package info

/-- The imports of every directory that can be read as a package. -/
def SourceRoots.allImports (t : FileTree) (roots : SourceRoots) : List String :=
  t.directories.flatMap fun place =>
    match PackageInfo.readCanonical t roots (.ofPlace place) with
    | .error _ => []
    | .ok info => info.imports

/-- A package that is found has its imports among those. -/
theorem SourceRoots.mem_allImports {t : FileTree} {roots : SourceRoots} {path : String}
    {info : PackageInfo} (h : roots.found t path = .package info) {q : String}
    (hq : q ∈ info.imports) : q ∈ roots.allImports t := by
  unfold SourceRoots.found at h
  split at h
  · simp at h
  · next dir _ =>
    split at h
    · simp at h
    · next info' hread =>
      obtain rfl : info' = info := by simpa using h
      unfold PackageInfo.read at hread
      split at hread
      · next hdir =>
        obtain ⟨place, hplace, hn⟩ := FileTree.exists_normalized_of_isDirectory hdir
        refine List.mem_flatMap.2 ⟨place, hplace, ?_⟩
        rw [← hn, hread]
        exact hq
      · simp at hread

/-- **The graph of the packages in a tree.** -/
def ImportGraph.ofTree (t : FileTree) (roots : SourceRoots) : ImportGraph where
  lookup := roots.found t
  importable := fun _ => roots.allImports t
  mem_importable := fun _ _ h _ hq => SourceRoots.mem_allImports h hq

/-! ## Walks -/

/-- What is told about a path when it is entered; a missing package only where the load started from
it, since entries that use it are told elsewhere. -/
def Found.diagnostics (path : String) (initial : Bool) : Found → List Diagnostic
  | .missing => if initial then [(Problem.missingPackage path).inPackage path] else []
  | .unreadable e =>
    match e with
    | .unreadable file _ | .unlistable file _ => [(Problem.unreadable e).inFile path file 0]
    | _ => [(Problem.unreadable e).inPackage path]
  | .package info =>
    (info.files.flatMap fun f => f.unit.syntaxErrors.map fun e =>
      (Problem.malformed e).inFile path f.path e.line) ++
    match info.declaredNames with
    | [] => []
    | first :: others => others.map fun other =>
      (Problem.conflictingNames info.dir first other).inPackage path

/-- **A walk**: the paths entered, the packages listed, and what has been found. -/
structure Walk where
  visited : List String
  loaded : List (String × PackageInfo)
  diagnostics : List Diagnostic

namespace Walk

/-- The walk before its first step. -/
def start : Walk := ⟨[], [], []⟩

/-- The walk when a path has been entered. -/
def enter (w : Walk) (path : String) (initial : Bool) (found : Found) : Walk :=
  { w with
    visited := path :: w.visited
    diagnostics := w.diagnostics ++ found.diagnostics path initial }

/-- The walk when a package has been listed. -/
def list (w : Walk) (path : String) (info : PackageInfo) : Walk :=
  { w with loaded := w.loaded ++ [(path, info)] }

end Walk

namespace ImportGraph

/-- A package on the stack, with the imports that are still to be followed. -/
structure Frame (g : ImportGraph) where
  path : String
  info : PackageInfo
  rest : List String
  mem_importable : ∀ q ∈ rest, q ∈ g.importable ()

/-- A package that has just been entered. -/
def Frame.ofPackage (g : ImportGraph) (path : String) (info : PackageInfo)
    (h : g.lookup path = .package info) : g.Frame :=
  ⟨path, info, info.imports, g.mem_importable path info h⟩

/-- What a package may add to the stack. -/
def cost (g : ImportGraph) (path : String) : Nat :=
  match g.lookup path with
  | .package info => info.imports.length + 2
  | _ => 0

/-- What those of some paths may add that have not been entered. -/
def unentered (g : ImportGraph) (visited : List String) : List String → Nat
  | [] => 0
  | p :: r => (if p ∈ visited then 0 else g.cost p) + g.unentered visited r

/-- What the paths may add that have not been entered. -/
def pending (g : ImportGraph) (visited : List String) : Nat :=
  g.unentered visited (g.importable ())

/-- What is on the stack. -/
def stackSize {g : ImportGraph} : List g.Frame → Nat
  | [] => 0
  | f :: r => f.rest.length + 1 + stackSize r

/-- Entering one more path takes nothing but its cost, and that at least once if it was there. -/
theorem unentered_cons_le (g : ImportGraph) (visited : List String) (path : String)
    (ps : List String) :
    g.unentered (path :: visited) ps + (if path ∈ ps ∧ path ∉ visited then g.cost path else 0)
      ≤ g.unentered visited ps := by
  induction ps with
  | nil => simp [unentered]
  | cons p ps ih =>
    simp only [unentered, List.mem_cons]
    by_cases hp : p = path
    · subst hp
      by_cases hv : p ∈ visited
      · simpa [hv] using ih
      · have hrest : g.unentered (p :: visited) ps ≤ g.unentered visited ps :=
          Nat.le_trans (Nat.le_add_right _ _) ih
        simp [hv]
        omega
    · simp only [hp, Ne.symm hp, false_or]
      omega

/-- Entering a path never adds to what is pending. -/
theorem pending_cons_le (g : ImportGraph) (visited : List String) (path : String) :
    g.pending (path :: visited) ≤ g.pending visited :=
  Nat.le_trans (Nat.le_add_right _ _) (g.unentered_cons_le visited path (g.importable ()))

/-- **Entering a package for the first time takes its cost.** -/
theorem pending_enter (g : ImportGraph) {visited : List String} {path : String}
    (hm : path ∈ g.importable ()) (hv : path ∉ visited) :
    g.pending (path :: visited) + g.cost path ≤ g.pending visited := by
  simpa [hm, hv, pending] using g.unentered_cons_le visited path (g.importable ())

/-- **Follows the imports of the packages on the stack**, the topmost first. -/
def follow (g : ImportGraph) (stack : List g.Frame) (w : Walk) : Walk :=
  match stack with
  | [] => w
  | ⟨path, info, [], _⟩ :: below => g.follow below (w.list path info)
  | ⟨path, info, q :: rest, hmem⟩ :: below =>
    let again : g.Frame := ⟨path, info, rest, fun r hr => hmem r (List.mem_cons_of_mem _ hr)⟩
    if q ∈ w.visited then g.follow (again :: below) w
    else
      match hfound : g.lookup q with
      | .package next =>
        g.follow (.ofPackage g q next hfound :: again :: below)
          (w.enter q false (.package next))
      | found => g.follow (again :: below) (w.enter q false found)
termination_by g.pending w.visited + stackSize stack
decreasing_by
  · simp [stackSize, Walk.list]
  · simp [stackSize]
  · rename_i hq
    have h1 := g.pending_enter (hmem q List.mem_cons_self) hq
    simp only [cost, hfound] at h1
    simp only [stackSize, Walk.enter, Frame.ofPackage, List.length_cons]
    omega
  · have h1 := g.pending_cons_le w.visited q
    simp only [stackSize, Walk.enter, List.length_cons]
    omega

/-- **Walks from a path that a load starts from.** -/
def visit (g : ImportGraph) (w : Walk) (path : String) : Walk :=
  if path ∈ w.visited then w
  else
    match hfound : g.lookup path with
    | .package info =>
      g.follow [.ofPackage g path info hfound] (w.enter path true (.package info))
    | found => w.enter path true found

/-- The walk from several paths, one after the other. -/
def walk (g : ImportGraph) (paths : List String) : Walk := paths.foldl g.visit .start

end ImportGraph

end ModelPool
