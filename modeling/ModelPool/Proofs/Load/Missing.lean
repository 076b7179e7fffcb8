import ModelPool.Proofs.Load.Counted
import ModelPool.Proofs.Load.Unresolved
import ModelPool.Proofs.Load.Wider

/-!
# Proofs/Load/Missing — what is told of packages that are missing

    gone, a    gone is entered first             told by the walk
    a, gone    a imports gone, so it is entered  told by the checker,
               on the way to what a imports      at the entry of a

A path is told of where it is entered, which happens once.  So the walk speaks of a missing path that the
load starts from only if no start before it leads there, and whether it does depends on the order of the
starts.  What the walk leaves out is told at an entry that points nowhere.

* `ImportGraph.filter_diagnostics_visit` — what one start adds.
* `ImportGraph.filter_diagnostics_walk` — what a walk tells of a path.
* `load_tells_missing` — what a load tells of it.
* `not_forall_missing_told` — a start that is missing and not told of.
-/

namespace ModelPool

open Text

/-- What is told of a missing package where a load starts. -/
def toldMissing (path : String) : Diagnostic := (Problem.missingPackage path).inPackage path

/-- A diagnostic tells that the package behind a path is missing. -/
def Diagnostic.isMissing (path : String) (d : Diagnostic) : Bool :=
  decide (d.kind = .missingPackage ∧ d.package = path)

theorem isMissing_toldMissing {path other : String} :
    (toldMissing other).isMissing path = true ↔ other = path := by
  simp [Diagnostic.isMissing, toldMissing, Problem.inPackage, Problem.kind]

/-! ## Walks -/

namespace ImportGraph

variable {g : ImportGraph} {starts : List String} {path : String}

/-- **Only a missing start is told to be missing.** -/
theorem eq_missing_of_isMissing {found : Found} {other : String} {initial : Bool} {d : Diagnostic}
    (hd : d ∈ found.diagnostics other initial) (h : d.isMissing path = true) :
    found = .missing ∧ initial = true ∧ other = path := by
  have hmissing : d.kind = .missingPackage ∧ d.package = path := of_decide_eq_true h
  rcases cases_of_diagnostics d hd with ⟨hfound, hinitial, rfl⟩ | hkind | hkind | hkind
  · exact ⟨hfound, hinitial, hmissing.2⟩
  all_goals exact absurd (hmissing.1.symm.trans hkind) (by decide)

/-- Entering anything but a missing start tells of no missing package. -/
theorem filter_diagnostics_enter {w : Walk} {found : Found} {other : String} {initial : Bool}
    (h : ¬ (found = .missing ∧ initial = true ∧ other = path)) :
    (w.enter other initial found).diagnostics.filter (·.isMissing path) =
      w.diagnostics.filter (·.isMissing path) := by
  have hnone : (found.diagnostics other initial).filter (·.isMissing path) = [] :=
    List.filter_eq_nil_iff.2 fun d hd hmissing => h (eq_missing_of_isMissing hd hmissing)
  rw [Walk.enter, List.filter_append, hnone, List.append_nil]

/-- Nor does following imports. -/
theorem filter_diagnostics_follow (stack : List g.Frame) (w : Walk) :
    (g.follow stack w).diagnostics.filter (·.isMissing path) =
      w.diagnostics.filter (·.isMissing path) := by
  refine @follow_induction g [] (fun _ v => v.diagnostics.filter (·.isMissing path) =
    w.diagnostics.filter (·.isMissing path)) (fun hs hw => ?_) stack w rfl
  cases hs with
  | start hs _ _ => exact absurd hs List.not_mem_nil
  | startLeaf hs _ _ => exact absurd hs List.not_mem_nil
  | seen _ _ => exact hw
  | enter _ _ _ => exact (filter_diagnostics_enter (by simp)).trans hw
  | leaf _ _ _ => exact (filter_diagnostics_enter (by simp)).trans hw
  | list _ => exact hw

/-- **A missing start is told of if it has not been entered.** -/
theorem filter_diagnostics_visit {w : Walk} (hv : path ∉ w.visited) (hl : g.lookup path = .missing) :
    (g.visit w path).diagnostics.filter (·.isMissing path) =
      w.diagnostics.filter (·.isMissing path) ++ [toldMissing path] := by
  have hvisit : g.visit w path = w.enter path true .missing := by
    unfold visit
    rw [if_neg hv]
    split
    · next info hfound => exact absurd (hl.symm.trans hfound) (by simp)
    · rw [hl]
  rw [hvisit, Walk.enter, List.filter_append]
  refine congrArg _ (List.filter_cons_of_pos ?_)
  exact isMissing_toldMissing.2 rfl

/-- And no other start tells that the path is missing. -/
theorem filter_diagnostics_visit_eq {w : Walk} {other : String}
    (h : ¬ (other = path ∧ g.lookup path = .missing ∧ path ∉ w.visited)) :
    (g.visit w other).diagnostics.filter (·.isMissing path) =
      w.diagnostics.filter (·.isMissing path) := by
  unfold visit
  split
  · rfl
  · next hv =>
    have hother : ∀ {found : Found}, g.lookup other = found →
        ¬ (found = .missing ∧ true = true ∧ other = path) := by
      rintro found rfl ⟨hl, -, rfl⟩
      exact h ⟨rfl, hl, hv⟩
    split
    · next info hl => exact (filter_diagnostics_follow _ _).trans (filter_diagnostics_enter (hother hl))
    · exact filter_diagnostics_enter (hother rfl)

/-- **A walk tells that a path is missing**: it is, and some start is the path while none before it leads
there. -/
def TellsMissing (g : ImportGraph) (starts : List String) (path : String) : Prop :=
  g.lookup path = .missing ∧
    ∃ before after, starts = before ++ path :: after ∧ ¬ g.Reachable before path

theorem TellsMissing.reachable (h : g.TellsMissing starts path) : g.Reachable starts path := by
  obtain ⟨-, before, after, rfl, -⟩ := h
  exact reachable_of_mem (List.mem_append_right _ List.mem_cons_self)

theorem tellsMissing_concat_iff {other : String} : g.TellsMissing (starts ++ [other]) path ↔
    g.TellsMissing starts path ∨ other = path ∧ g.lookup path = .missing ∧ ¬ g.Reachable starts path := by
  constructor
  · rintro ⟨hl, before, after, hsplit, hbefore⟩
    rcases List.eq_nil_or_concat after with rfl | ⟨after, last, rfl⟩
    · obtain ⟨rfl, hlast⟩ := List.append_inj' hsplit rfl
      exact .inr ⟨(List.cons.inj hlast).1, hl, hbefore⟩
    · rw [List.concat_eq_append, ← List.cons_append, ← List.append_assoc] at hsplit
      exact .inl ⟨hl, before, after, (List.append_inj' hsplit rfl).1, hbefore⟩
  · rintro (⟨hl, before, after, rfl, hbefore⟩ | ⟨rfl, hl, hnew⟩)
    · exact ⟨hl, before, after ++ [other], by simp, hbefore⟩
    · exact ⟨hl, starts, [], rfl, hnew⟩

/-- **What a walk tells of a missing path**: nothing, or once that it is missing. -/
theorem filter_diagnostics_walk (g : ImportGraph) (starts : List String) (path : String) :
    (g.TellsMissing starts path →
        (g.walk starts).diagnostics.filter (·.isMissing path) = [toldMissing path]) ∧
      (¬ g.TellsMissing starts path →
        (g.walk starts).diagnostics.filter (·.isMissing path) = []) := by
  induction starts using List.reverseRecOn with
  | nil => 
    refine ⟨fun h => ?_, fun _ => rfl⟩
    obtain ⟨s, hs, -⟩ := h.reachable
    exact absurd hs List.not_mem_nil
  | append_singleton starts other ih =>
    have hwalk : g.walk (starts ++ [other]) = g.visit (g.walk starts) other := by
      simp [walk, List.foldl_append]
    have hvisited : path ∈ (g.walk starts).visited ↔ g.Reachable starts path :=
      ⟨(Traced.walk g starts).reachable path, mem_visited_of_reachable⟩
    rw [hwalk, tellsMissing_concat_iff]
    by_cases hnew : other = path ∧ g.lookup path = .missing ∧ ¬ g.Reachable starts path
    · obtain ⟨rfl, hl, hunreached⟩ := hnew
      have hold := ih.2 fun h => hunreached h.reachable
      refine ⟨fun _ => ?_, fun h => absurd (.inr ⟨rfl, hl, hunreached⟩) h⟩
      rw [filter_diagnostics_visit (mt hvisited.1 hunreached) hl, hold]
      rfl
    · rw [filter_diagnostics_visit_eq (by rwa [hvisited]), or_iff_left hnew]
      exact ih

end ImportGraph

/-! ## Loads -/

/-- **The kinds that only the walk tells of**: what is wrong with packages as a whole, and with their texts. -/
def DiagnosticKind.IsOfWalk (kind : DiagnosticKind) : Prop :=
  kind = .syntaxError ∨ kind = .unreadable ∨ kind = .missingPackage ∨ kind = .packageName

/-- The checker tells of no such thing. -/
theorem SourceFile.not_isOfWalk_of_found_check {s : Surroundings} {package : String} {f : SourceFile} :
    ∀ d ∈ (f.check s package).found, ¬ d.kind.IsOfWalk := by
  rw [found_check_eq, List.forall_mem_append]
  constructor
  · intro d hd hkind
    rcases Scope.isOfEntry_of_found_addAll d hd with h | h | h | h
    all_goals simp [DiagnosticKind.IsOfWalk, h] at hkind
  · intro d hd hkind
    rcases (isOfType_of_foundInTypes d hd).1 with h | h
    all_goals simp [DiagnosticKind.IsOfWalk, h] at hkind

theorem kind_of_repeatedNames {package : String} {seen : List (Bool × String)}
    {items : List (FilePath × Item)} :
    ∀ d ∈ repeatedNames package seen items, d.kind = .redeclared := by
  induction items generalizing seen with
  | nil => exact fun d hd => absurd hd List.not_mem_nil
  | cons x r ih =>
    obtain ⟨file, i⟩ := x
    unfold repeatedNames
    dsimp only
    split
    · exact List.forall_mem_cons.2 ⟨rfl, ih⟩
    · exact ih

namespace Program

variable {t : FileTree} {roots : SourceRoots} {imports : ImportSet} {mode : LoadMode} {p : Program}
  {path : String}

/-- **What a load tells of packages as a whole** is told by the walk. -/
theorem filter_diagnostics_of_isOfWalk (h : load t roots imports mode = .ok p) {q : Diagnostic → Bool}
    (hq : ∀ d, q d = true → d.kind.IsOfWalk) :
    p.diagnostics.filter q = (walkOf t roots imports).diagnostics.filter q := by
  obtain ⟨-, rfl, -⟩ := load_eq_ok_iff.1 h
  have hnone : ∀ ds : List Diagnostic, (∀ d ∈ ds, ¬ d.kind.IsOfWalk) → ds.filter q = [] :=
    fun ds hds => List.filter_eq_nil_iff.2 fun d hd hqd => hds d hd (hq d hqd)
  obtain ⟨repeated, hrepeated⟩ : ∃ ds, ds =
    (walkOf t roots imports).loaded.flatMap fun x => redeclarations x.1 x.2.files := ⟨_, rfl⟩
  obtain ⟨checked, hchecked⟩ : ∃ ds, ds = (checkPackages (surroundingsOf t roots imports)
    (walkOf t roots imports).loaded).found := ⟨_, rfl⟩
  have hparts : (ofWalk t roots imports mode (walkOf t roots imports)).diagnostics =
      (walkOf t roots imports).diagnostics ++ repeated ++ checked := by
    rw [hrepeated, hchecked]
    rfl
  rw [hparts, List.filter_append, List.filter_append, hnone repeated, hnone checked, List.append_nil,
    List.append_nil]
  · rw [hchecked, found_checkPackages, List.forall_mem_flatMap]
    intro x _
    rw [SourceFile.found_checkAll, List.forall_mem_flatMap]
    exact fun f _ => SourceFile.not_isOfWalk_of_found_check
  · rw [hrepeated, List.forall_mem_flatMap]
    intro x _ d hd hkind
    simp [DiagnosticKind.IsOfWalk, kind_of_repeatedNames d hd] at hkind

/-- And so is what it tells of missing packages. -/
theorem filter_diagnostics_of_load (h : load t roots imports mode = .ok p) :
    p.diagnostics.filter (·.isMissing path) =
      (walkOf t roots imports).diagnostics.filter (·.isMissing path) :=
  filter_diagnostics_of_isOfWalk h fun _ hd => .inr (.inr (.inl (of_decide_eq_true hd).1))

/-- **A load tells that a path is missing**: it is, and it is the path of an entry while no entry before it
leads there through imports. -/
def TellsMissing (t : FileTree) (roots : SourceRoots) (imports : ImportSet) (path : String) : Prop :=
  roots.find? t path = none ∧ ∃ before after, imports.paths.map trimmed = before ++ path :: after ∧
    ∀ entry ∈ before, ¬ Relation.ReflTransGen (roots.Imports t) entry path

theorem tellsMissing_ofTree_iff :
    (ImportGraph.ofTree t roots).TellsMissing (imports.paths.map trimmed) path ↔
      TellsMissing t roots imports path := by
  simp only [ImportGraph.TellsMissing, TellsMissing, SourceRoots.lookup_ofTree_eq_missing_iff,
    ImportGraph.Reachable, SourceRoots.imports_ofTree, not_exists, not_and]

/-- **A missing path is imported by a listed package** exactly if another entry leads there. -/
theorem exists_importing_iff (hnone : roots.find? t path = none) :
    (∃ x ∈ (walkOf t roots imports).loaded, path ∈ x.2.imports) ↔ ∃ entry ∈ imports.paths,
      trimmed entry ≠ path ∧ Relation.ReflTransGen (roots.Imports t) (trimmed entry) path := by
  have hleaf : ∀ q, ¬ roots.Imports t path q := by
    rintro q ⟨info, ⟨dir, hdir, -⟩, -⟩
    exact absurd (hnone.symm.trans hdir) (by simp)
  constructor
  · rintro ⟨x, hx, himport⟩
    obtain ⟨hpackage, entry, hentry, hleads⟩ := mem_loaded_iff.1 hx
    have himports : roots.Imports t x.1 path := ⟨x.2, hpackage, himport⟩
    refine ⟨entry, hentry, fun heq => ?_, hleads.tail himports⟩
    rw [heq] at hleads
    rcases hleads.cases_head with hself | ⟨q, hq, -⟩
    · exact hleaf path (hself ▸ himports)
    · exact hleaf q hq
  · rintro ⟨entry, hentry, hne, hleads⟩
    rcases hleads.cases_tail with heq | ⟨q, hq, info, hpackage, himport⟩
    · exact absurd heq.symm hne
    · exact ⟨(q, info), mem_loaded_iff.2 ⟨hpackage, entry, hentry, hq⟩, himport⟩

/-- A missing entry that is not told of is led to by another. -/
theorem exists_leads_of_not_tellsMissing (hpath : path ∈ imports.paths.map trimmed)
    (hnone : roots.find? t path = none) (hnot : ¬ TellsMissing t roots imports path) :
    ∃ entry ∈ imports.paths, trimmed entry ≠ path ∧
      Relation.ReflTransGen (roots.Imports t) (trimmed entry) path := by
  obtain ⟨before, after, hsplit, hfirst⟩ := List.eq_append_cons_of_mem hpath
  obtain ⟨start, hstart, hleads⟩ : ∃ start ∈ before,
      Relation.ReflTransGen (roots.Imports t) start path := by
    by_contra hall
    push Not at hall
    exact hnot ⟨hnone, before, after, hsplit, hall⟩
  obtain ⟨entry, hentry, rfl⟩ := List.mem_map.1 (hsplit ▸ List.mem_append_left _ hstart)
  exact ⟨entry, hentry, fun h => hfirst (h ▸ hstart), hleads⟩

/-- **What is left out is told at an entry that points nowhere.** -/
theorem exists_told_of_not_tellsMissing (h : load t roots imports mode = .ok p)
    (hpath : path ∈ imports.paths.map trimmed) (hnone : roots.find? t path = none)
    (hnot : ¬ TellsMissing t roots imports path) :
    ∃ a ∈ p.packages, ∃ f ∈ a.files, ∃ u ∈ f.unit.uses,
      PackageInfo.dependency? t roots u = some path ∧
        (Problem.unresolvedImport u.pathText).inFile a.importPath f.path u.line ∈ p.diagnostics := by
  obtain ⟨x, hx, himport⟩ :=
    (exists_importing_iff hnone).2 (exists_leads_of_not_tellsMissing hpath hnone hnot)
  obtain ⟨⟨dir, -, hread⟩, -⟩ := mem_loaded_iff.1 hx
  rw [PackageInfo.imports_of_read hread] at himport
  obtain ⟨⟨f, hf, u, hu, hdep⟩, -⟩ := PackageInfo.mem_importsOf_iff.1 himport
  have hunresolved : (surroundingsOf t roots imports).classify u = .unresolved :=
    PackageInfo.classify_eq_unresolved hdep hnone
  refine ⟨_, mem_packages_of_loaded h hx, f, hf, u, hu, hdep, mem_diagnostics_of_mem_found h hx hf ?_⟩
  rw [SourceFile.found_check_eq]
  refine List.mem_append_left _ (Scope.mem_found_addAll hu (by simp [hunresolved]) ?_)
  rw [hunresolved]
  exact List.mem_cons_self

/-- **A missing entry is told of in every order of the entries** exactly if no loaded package imports it. -/
theorem forall_perm_tellsMissing_iff (h : load t roots imports mode = .ok p)
    (hpath : path ∈ imports.paths.map trimmed) (hnone : roots.find? t path = none) :
    (∀ paths, paths.Perm imports.paths → TellsMissing t roots ⟨paths⟩ path) ↔
      ∀ a ∈ p.packages, path ∉ a.imports := by
  have himports : (∀ a ∈ p.packages, path ∉ a.imports) ↔
      ¬ ∃ x ∈ (walkOf t roots imports).loaded, path ∈ x.2.imports := by
    rw [packages_of_load h, List.forall_mem_map]
    simp [checked]
  rw [himports, exists_importing_iff hnone]
  constructor
  · rintro htold ⟨entry, hentry, hne, hleads⟩
    -- in an order where it comes first, the other entry leads to the path
    obtain ⟨-, before, after, hsplit, hbefore⟩ := htold _ (List.perm_cons_erase hentry).symm
    cases before with
    | nil => exact hne (List.cons.inj hsplit).1
    | cons first before =>
      obtain ⟨rfl, -⟩ := List.cons.inj hsplit
      exact hbefore _ List.mem_cons_self hleads
  · intro hnot paths hperm
    by_contra htold
    have hmem : path ∈ (⟨paths⟩ : ImportSet).paths.map trimmed := (hperm.map trimmed).mem_iff.2 hpath
    obtain ⟨entry, hentry, hne, hleads⟩ := exists_leads_of_not_tellsMissing hmem hnone htold
    exact hnot ⟨entry, hperm.mem_iff.1 hentry, hne, hleads⟩

/-- **What a load tells of the entries that are missing.**  A tolerant load from some paths gives a program.
It tells of each path once that it is missing if it is, and an entry while no entry before it leads there, and
otherwise not at all.  A missing entry of which this is not told is imported by a loaded file, and it is told
there that the import cannot be resolved.  And it is told of in every order of the entries exactly if no loaded
package imports it. -/
theorem load_tells_missing (hne : imports.paths ≠ []) :
    ∃ p, load t roots imports .tolerant = .ok p ∧
      (∀ path, (TellsMissing t roots imports path →
          p.diagnostics.filter (·.isMissing path) = [toldMissing path]) ∧
        (¬ TellsMissing t roots imports path → p.diagnostics.filter (·.isMissing path) = [])) ∧
      ∀ path ∈ imports.paths.map trimmed, roots.find? t path = none →
        (¬ TellsMissing t roots imports path → ∃ a ∈ p.packages, ∃ f ∈ a.files, ∃ u ∈ f.unit.uses,
          PackageInfo.dependency? t roots u = some path ∧
            (Problem.unresolvedImport u.pathText).inFile a.importPath f.path u.line ∈ p.diagnostics) ∧
        ((∀ paths, paths.Perm imports.paths → TellsMissing t roots ⟨paths⟩ path) ↔
          ∀ a ∈ p.packages, path ∉ a.imports) := by
  obtain ⟨p, hp⟩ : ∃ p, load t roots imports .tolerant = .ok p :=
    ⟨_, load_eq_ok_iff.2 ⟨hne, rfl, fun h => absurd h (by decide)⟩⟩
  refine ⟨p, hp, fun path => ?_, fun path hpath hnone =>
    ⟨exists_told_of_not_tellsMissing hp hpath hnone, forall_perm_tellsMissing_iff hp hpath hnone⟩⟩
  rw [filter_diagnostics_of_load hp, ← tellsMissing_ofTree_iff]
  exact ImportGraph.filter_diagnostics_walk _ _ path

/-- A package that imports what is missing. -/
def importerTree : FileTree := .ofTexts [(["a", "x.rs"], "use gone;")]

/-- What is missing is told of if it comes first. -/
theorem load_tells_missing_first : ∃ p, load importerTree rootOnly ⟨["gone", "a"]⟩ .tolerant = .ok p ∧
    p.diagnostics.filter (·.isMissing "gone") = [toldMissing "gone"] := by
  obtain ⟨p, hp, htold, -⟩ :=
    @load_tells_missing importerTree rootOnly ⟨["gone", "a"]⟩ (List.cons_ne_nil _ _)
  refine ⟨p, hp, (htold "gone").1 ⟨by decide +kernel, [], ["a"], by decide +kernel, ?_⟩⟩
  exact fun _ h => absurd h List.not_mem_nil

/-- **Not every entry that is missing is told of**: behind a package that imports it, it has been entered. -/
theorem not_forall_missing_told : ¬ ∀ (t : FileTree) (roots : SourceRoots) (imports : ImportSet)
    (p : Program), load t roots imports .tolerant = .ok p → ∀ path ∈ imports.paths.map trimmed,
      roots.find? t path = none → p.diagnostics.filter (·.isMissing path) = [toldMissing path] := by
  intro h
  obtain ⟨p, hp, hsilent⟩ : ∃ p, load importerTree rootOnly ⟨["a", "gone"]⟩ .tolerant = .ok p ∧
      p.diagnostics.filter (·.isMissing "gone") = [] :=
    exists_load (List.cons_ne_nil _ _) (by decide +kernel)
  have htold := h _ _ _ _ hp "gone" (by decide +kernel) (by decide +kernel)
  exact absurd (hsilent.symm.trans htold) (List.cons_ne_nil _ _).symm

end Program

end ModelPool
