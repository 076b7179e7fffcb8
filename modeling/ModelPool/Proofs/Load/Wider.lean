import ModelPool.Proofs.Check.Wider
import ModelPool.Proofs.Load.Counted
import ModelPool.Proofs.Load.Distinct
import ModelPool.Proofs.Load.Part

/-!
# Proofs/Load/Wider — loading more

    imports   a         ──walk──▸ b, a
    wider     c  a  a   ──walk──▸ d, c, b, a

A load from more paths lists more packages, those of the first among them.  What the entries of a file point to
is loaded with the file, so among these packages there is nothing new, and the file means what it meant.  This
takes packages that are reached by their own paths only: what a package imports from itself is left out of its
imports, so under another path it would be without itself.

* `load_wider` — what a wider load keeps.
* `not_forall_load_wider` — a package that is without itself.
-/

namespace ModelPool

open FileTree

/-! ## Names that are declared again -/

/-- **What is told of a path that is entered**: that it is missing, if it is where a load starts, or
something of what has been read. -/
theorem ImportGraph.cases_of_diagnostics {path : String} {initial : Bool} {found : Found} :
    ∀ d ∈ found.diagnostics path initial,
      (found = .missing ∧ initial = true ∧ d = (Problem.missingPackage path).inPackage path) ∨
        d.kind = .unreadable ∨ d.kind = .syntaxError ∨ d.kind = .packageName := by
  intro d hd
  cases found with
  | missing =>
    cases initial with
    | true => exact .inl ⟨rfl, rfl, List.mem_singleton.1 hd⟩
    | false => exact absurd hd List.not_mem_nil
  | unreadable e =>
    refine .inr (.inl ?_)
    cases e <;> (rw [List.mem_singleton.1 hd]; rfl)
  | package info =>
    rcases List.mem_append.1 hd with hd | hd
    · obtain ⟨f, -, hd⟩ := List.mem_flatMap.1 hd
      obtain ⟨e, -, rfl⟩ := List.mem_map.1 hd
      exact .inr (.inr (.inl rfl))
    · split at hd
      · exact absurd hd List.not_mem_nil
      · obtain ⟨other, -, rfl⟩ := List.mem_map.1 hd
        exact .inr (.inr (.inr rfl))

/-- Nothing is told of names. -/
theorem ImportGraph.kind_of_diagnostics {path : String} {initial : Bool} {found : Found} :
    ∀ d ∈ found.diagnostics path initial, d.kind ≠ .redeclared := by
  intro d hd hkind
  rcases cases_of_diagnostics d hd with ⟨-, -, rfl⟩ | h | h | h
  · exact absurd hkind (by simp [Problem.inPackage, Problem.kind])
  all_goals exact absurd (hkind.symm.trans h) (by decide)

/-- A walk tells nothing of names. -/
theorem ImportGraph.kind_of_diagnostics_walk (g : ImportGraph) (starts : List String) :
    ∀ d ∈ (g.walk starts).diagnostics, d.kind ≠ .redeclared := by
  refine walk_induction (I := fun (_ : List g.Frame) w => ∀ d ∈ w.diagnostics, d.kind ≠ .redeclared)
    ?_ fun _ hd => absurd hd List.not_mem_nil
  intro stack w stack' w' hstep hw
  have henter : ∀ {path : String} {initial : Bool} {found : Found},
      ∀ d ∈ (w.enter path initial found).diagnostics, d.kind ≠ .redeclared :=
    List.forall_mem_append.2 ⟨hw, kind_of_diagnostics⟩
  cases hstep with
  | start _ _ _ => exact henter
  | startLeaf _ _ _ => exact henter
  | seen _ _ => exact hw
  | enter _ _ _ => exact henter
  | leaf _ _ _ => exact henter
  | list _ => exact hw

theorem package_of_repeatedNames {package : String} {seen : List (Bool × String)}
    {items : List (FilePath × Item)} : ∀ d ∈ repeatedNames package seen items, d.package = package := by
  induction items generalizing seen with
  | nil => exact fun d hd => absurd hd List.not_mem_nil
  | cons x r ih =>
    obtain ⟨file, i⟩ := x
    intro d hd
    unfold repeatedNames at hd
    dsimp only at hd
    split at hd
    · rcases List.mem_cons.1 hd with rfl | hd
      · rfl
      · exact ih d hd
    · exact ih d hd

theorem package_of_redeclarations {package : String} {files : List SourceFile} :
    ∀ d ∈ redeclarations package files, d.package = package := package_of_repeatedNames

/-- What is told entry by entry is told of an entry by itself. -/
theorem filter_flatMap_of_nodup {α : Type} {l : List (String × α)} (hnodup : (l.map Prod.fst).Nodup)
    {x : String × α} (hx : x ∈ l) {g : String × α → List Diagnostic} {q : Diagnostic → Bool}
    (hg : ∀ y ∈ l, ∀ d ∈ g y, d.package = y.1) (hq : ∀ d, q d = true → d.package = x.1) :
    (l.flatMap g).filter q = (g x).filter q := by
  obtain ⟨before, after, rfl⟩ := List.append_of_mem hx
  rw [List.map_append, List.map_cons, List.nodup_append, List.nodup_cons] at hnodup
  obtain ⟨-, ⟨hafter, -⟩, hbefore⟩ := hnodup
  have hnone : ∀ part : List (String × α), (∀ y ∈ part, y.1 ≠ x.1 ∧ y ∈ before ++ x :: after) →
      (part.flatMap g).filter q = [] := by
    intro part hpart
    rw [List.filter_eq_nil_iff]
    intro d hd hqd
    obtain ⟨y, hy, hd⟩ := List.mem_flatMap.1 hd
    obtain ⟨hne, hmem⟩ := hpart y hy
    exact hne ((hg y hmem d hd).symm.trans (hq d hqd))
  rw [List.flatMap_append, List.flatMap_cons, List.filter_append, List.filter_append,
    hnone before fun y hy => ⟨hbefore y.1 (List.mem_map_of_mem hy) x.1 List.mem_cons_self,
      List.mem_append_left _ hy⟩,
    hnone after fun y hy => ⟨fun h => hafter (h ▸ List.mem_map_of_mem hy),
      List.mem_append_right _ (List.mem_cons_of_mem _ hy)⟩,
    List.nil_append, List.append_nil]

namespace Program

variable {t : FileTree} {roots : SourceRoots} {imports imports' : ImportSet} {mode mode' : LoadMode}
  {p q : Program}

/-- **What a program tells of names that a package declares or binds again.** -/
def redeclaredIn (p : Program) (package : String) : List Diagnostic :=
  p.diagnostics.filter fun d => decide (d.package = package ∧ d.kind = .redeclared)

/-- **It is told of the package's items and of its entries.** -/
theorem redeclaredIn_of_load (h : load t roots imports mode = .ok p) {x : String × PackageInfo}
    (hx : x ∈ (walkOf t roots imports).loaded) :
    p.redeclaredIn x.1 = (redeclarations x.1 x.2.files ++ x.2.files.flatMap fun f =>
      (Scope.ofFile (surroundingsOf t roots imports) x.1 f).found).filter
        fun d => decide (d.package = x.1 ∧ d.kind = .redeclared) := by
  obtain ⟨-, rfl, -⟩ := load_eq_ok_iff.1 h
  have hnodup : ((walkOf t roots imports).loaded.map Prod.fst).Nodup :=
    ImportGraph.nodup_loaded_walk _ _
  have hwalk : (walkOf t roots imports).diagnostics.filter
      (fun d => decide (d.package = x.1 ∧ d.kind = .redeclared)) = [] := by
    rw [List.filter_eq_nil_iff]
    intro d hd hq
    exact ImportGraph.kind_of_diagnostics_walk _ _ d hd (of_decide_eq_true hq).2
  have hq : ∀ d : Diagnostic, decide (d.package = x.1 ∧ d.kind = .redeclared) = true →
      d.package = x.1 ∧ d.kind = .redeclared := fun d hd => of_decide_eq_true hd
  have hcheck : ∀ y ∈ (walkOf t roots imports).loaded, ∀ d ∈
      (SourceFile.checkAll (surroundingsOf t roots imports) y.1 y.2.files).found, d.package = y.1 := by
    intro y _ d hd
    rw [SourceFile.found_checkAll] at hd
    obtain ⟨f, -, hd⟩ := List.mem_flatMap.1 hd
    exact SourceFile.package_of_found_check d hd
  simp only [redeclaredIn, ofWalk, found_checkPackages]
  rw [List.filter_append, List.filter_append, hwalk, List.nil_append, List.filter_append,
    filter_flatMap_of_nodup hnodup hx (fun y _ d hd => package_of_redeclarations d hd)
      fun d hd => (hq d hd).1,
    ← surroundingsOf, filter_flatMap_of_nodup hnodup hx hcheck fun d hd => (hq d hd).1,
    SourceFile.found_checkAll, List.filter_flatMap, List.filter_flatMap]
  congr 2
  funext f
  exact SourceFile.filter_found_check _ fun d hd => (hq d hd).2

/-! ## Packages of a wider load -/

/-- A package that an entry points to is one that its file needs. -/
theorem dependency?_of_package? {u : UseEntry} {owner : String}
    (h : (roots.classify t u).package? = some owner) :
    PackageInfo.dependency? t roots u = some owner := by
  unfold PackageInfo.dependency?
  cases htarget : roots.classify t u <;> rw [htarget] at h <;> first | exact h | cases h

/-- **What the entries of a listed package point to is listed**, if it can be read. -/
theorem mem_loaded_of_entry (hapart : roots.LieApart t) {x : String × PackageInfo}
    (hx : x ∈ (walkOf t roots imports).loaded) (hpath : IsPlainPath x.1) (huses : PlainUses x.2.files)
    {f : SourceFile} (hf : f ∈ x.2.files) {u : UseEntry} (hu : u ∈ f.unit.uses) {owner : String}
    (howner : (roots.classify t u).package? = some owner) {info : PackageInfo}
    (hinfo : roots.HasPackage t owner info) : (owner, info) ∈ (walkOf t roots imports).loaded := by
  have hdependency := dependency?_of_package? howner
  obtain ⟨hpackage, entry, hentry, hreach⟩ := mem_loaded_iff.1 hx
  by_cases hown : x.2.importPath = some owner
  · have hplain : IsPlainPath owner := PackageInfo.isPlainPath_of_dependency? hdependency
      (huses f hf u hu) (SourceRoots.isSome_find?_of_package? howner)
    rw [hapart.eq_of_importPath hpath hpackage hown hplain] at hinfo ⊢
    exact mem_loaded_iff.2 ⟨hinfo, entry, hentry, hreach⟩
  · have himports : owner ∈ x.2.imports := by
      obtain ⟨_, -, hread⟩ := hpackage
      rw [PackageInfo.imports_of_read hread]
      exact PackageInfo.mem_importsOf_iff.2 ⟨⟨f, hf, u, hu, hdependency⟩, hown⟩
    exact mem_loaded_iff.2 ⟨hinfo, entry, hentry, hreach.tail ⟨x.2, hpackage, himports⟩⟩

/-- **The surroundings of a listed package** hold nothing new for its files when more is listed. -/
theorem covers_surroundingsOf (hapart : roots.LieApart t)
    (hsub : ∀ entry ∈ imports.paths, entry ∈ imports'.paths) {x : String × PackageInfo}
    (hx : x ∈ (walkOf t roots imports).loaded) (hpath : IsPlainPath x.1) (huses : PlainUses x.2.files)
    {f : SourceFile} (hf : f ∈ x.2.files) :
    (surroundingsOf t roots imports).Covers (surroundingsOf t roots imports') x.1 f.unit.uses where
  toPart := part_surroundingsOf hsub hx
  entries := by
    intro u hu owner howner
    cases hdeclared : (surroundingsOf t roots imports').declarations? owner with
    | some ds =>
      obtain ⟨info, hinfo, rfl⟩ := Reload.declarations?_eq_some_iff.1 hdeclared
      exact Reload.declarations?_eq_some_iff.2 ⟨info,
        mem_loaded_of_entry hapart hx hpath huses hf hu howner (mem_loaded_iff.1 hinfo).1, rfl⟩
    | none =>
      cases hknown : (surroundingsOf t roots imports).declarations? owner with
      | none => rfl
      | some ds =>
        obtain ⟨info, hinfo, rfl⟩ := Reload.declarations?_eq_some_iff.1 hknown
        have hwider := Reload.declarations?_eq_some_iff.2 ⟨info, mem_loaded_of_subset hsub hinfo, rfl⟩
        exact absurd (hdeclared.symm.trans hwider) nofun

/-- **What a wider load keeps of a package**: all that is read, what is told of its entries and of names
that are declared or bound again, and what each path in its files stands for, if it stands for something. -/
structure Keeps (s s' : Surroundings) (p q : Program) (a b : Package) : Prop where
  importPath : b.importPath = a.importPath
  name : b.name = a.name
  dir : b.dir = a.dir
  files : b.files = a.files
  imports : b.imports = a.imports
  entries : ∀ f ∈ a.files,
    (Scope.ofFile s' a.importPath f).found = (Scope.ofFile s a.importPath f).found
  redeclared : q.redeclaredIn a.importPath = p.redeclaredIn a.importPath
  targets : ∀ f ∈ a.files, ∀ generics path,
    ((f.checkIn s a.importPath).target generics path).IsResolved →
      (f.checkIn s' a.importPath).target generics path = (f.checkIn s a.importPath).target generics path

/-- Loads from the same paths declare the same. -/
theorem surroundingsOf_eq (hsub : ∀ entry ∈ imports.paths, entry ∈ imports'.paths)
    (hsub' : ∀ entry ∈ imports'.paths, entry ∈ imports.paths) :
    surroundingsOf t roots imports' = surroundingsOf t roots imports := by
  have hdeclarations : (surroundingsOf t roots imports').declarations? =
      (surroundingsOf t roots imports).declarations? := by
    funext owner
    refine Option.ext fun ds => ?_
    rw [Reload.declarations?_eq_some_iff, Reload.declarations?_eq_some_iff]
    exact exists_congr fun info => and_congr_left fun _ =>
      ⟨mem_loaded_of_subset hsub', mem_loaded_of_subset hsub⟩
  change Surroundings.mk _ _ = Surroundings.mk _ _
  exact congrArg _ hdeclarations

/-- **A wider load keeps what a load gives.**  If no root lies inside another, and the paths that a load starts
from and the entries of what it lists are of plain names, each of its packages is listed by a load from more
paths, and kept there.  Loads from the same paths, in any order and with any repetitions, list the same packages
with the same models. -/
theorem load_wider (hapart : roots.LieApart t) (hentries : ∀ entry ∈ imports.paths, IsPlainPath entry)
    (huses : ∀ a ∈ p.packages, PlainUses a.files)
    (hsub : ∀ entry ∈ imports.paths, entry ∈ imports'.paths)
    (hp : load t roots imports mode = .ok p) (hq : load t roots imports' mode' = .ok q) :
    (∀ a ∈ p.packages, ∃ b ∈ q.packages,
        Keeps (surroundingsOf t roots imports) (surroundingsOf t roots imports') p q a b) ∧
      ((∀ entry ∈ imports'.paths, entry ∈ imports.paths) → ∀ a, a ∈ q.packages ↔ a ∈ p.packages) := by
  constructor
  · intro a ha
    rw [packages_of_load hp] at ha
    obtain ⟨x, hx, rfl⟩ := List.mem_map.1 ha
    have hlisted : ∀ y ∈ (walkOf t roots imports).loaded, PlainUses y.2.files :=
      fun y hy => huses _ (mem_packages_of_loaded hp hy)
    have hwider := mem_loaded_of_subset hsub hx
    have hcovers : ∀ f ∈ x.2.files, _ := fun f hf => covers_surroundingsOf hapart hsub hx
      (isPlainPath_of_loaded hentries hlisted hx) (hlisted x hx) hf
    have hfound : ∀ f ∈ x.2.files, (Scope.ofFile (surroundingsOf t roots imports') x.1 f).found =
        (Scope.ofFile (surroundingsOf t roots imports) x.1 f).found :=
      fun f hf => (Scope.found_ofFile_eq (hcovers f hf)).symm
    refine ⟨_, mem_packages_of_loaded hq hwider, rfl, rfl, rfl, rfl, rfl, hfound, ?_,
      fun f hf generics path => SourceFile.target_eq_of_isResolved (hcovers f hf)⟩
    change q.redeclaredIn x.1 = p.redeclaredIn x.1
    rw [redeclaredIn_of_load hq hwider, redeclaredIn_of_load hp hx, List.flatMap_congr hfound]
  · intro hsub' a
    rw [packages_of_load hp, packages_of_load hq, surroundingsOf_eq hsub hsub', List.mem_map,
      List.mem_map]
    exact exists_congr fun x => and_congr_left fun _ =>
      ⟨mem_loaded_of_subset hsub', mem_loaded_of_subset hsub⟩

/-! ## One package more -/

/-- A model with a field of a type from a glob, and one that only a wider load knows. -/
def widerTree : FileTree :=
  .ofTexts [(["a", "x.rs"], "use b::*;\n#[model] struct M { x: B, y: c::C }"),
    (["b", "x.rs"], "struct B;"), (["c", "x.rs"], "struct B;\nstruct C;")]

/-- The types of the fields of a package's models. -/
def fieldTypes (a : Package) : List ResolvedType :=
  a.models.flatMap fun m => m.fields.map ResolvedField.type

/-- The field that was known is what it was, and the other one has come to be known. -/
theorem load_wider_glob : ∃ p q, rootOnly.LieApart widerTree ∧
    (∀ entry ∈ (⟨["a"]⟩ : ImportSet).paths, IsPlainPath entry) ∧
    (∀ a ∈ p.packages, PlainUses a.files) ∧
    (∀ entry ∈ (⟨["a"]⟩ : ImportSet).paths, entry ∈ (⟨["c", "a", "a"]⟩ : ImportSet).paths) ∧
    load widerTree rootOnly ⟨["a"]⟩ .tolerant = .ok p ∧
    load widerTree rootOnly ⟨["c", "a", "a"]⟩ .tolerant = .ok q ∧
    p.packages.map (fun a => (a.importPath, fieldTypes a)) = [("b", []),
      ("a", [.path (.declared "b" "B") [], .path (.unresolved ["c", "C"]) []])] ∧
    q.packages.map (fun a => (a.importPath, fieldTypes a)) = [("c", []), ("b", []),
      ("a", [.path (.declared "b" "B") [], .path (.declared "c" "C") []])] ∧
    ∀ a ∈ p.packages, ∃ b ∈ q.packages, Keeps (surroundingsOf widerTree rootOnly ⟨["a"]⟩)
      (surroundingsOf widerTree rootOnly ⟨["c", "a", "a"]⟩) p q a b := by
  obtain ⟨p, hp, hpackages⟩ : ∃ p, load widerTree rootOnly ⟨["a"]⟩ .tolerant = .ok p ∧
      p.packages.map (fun a => ((a.importPath, fieldTypes a), usePaths a)) = [(("b", []), []),
        (("a", [.path (.declared "b" "B") [], .path (.unresolved ["c", "C"]) []]), [["b"]])] :=
    exists_load (by simp) (by decide +kernel)
  obtain ⟨q, hq, hwider⟩ : ∃ q, load widerTree rootOnly ⟨["c", "a", "a"]⟩ .tolerant = .ok q ∧
      q.packages.map (fun a => (a.importPath, fieldTypes a)) = [("c", []), ("b", []),
        ("a", [.path (.declared "b" "B") [], .path (.declared "c" "C") []])] :=
    exists_load (by simp) (by decide +kernel)
  have hapart : rootOnly.LieApart widerTree := fun root hroot other hother _ _ _ _ _ =>
    (List.mem_singleton.1 hroot).trans (List.mem_singleton.1 hother).symm
  have hentries : ∀ entry ∈ (⟨["a"]⟩ : ImportSet).paths, IsPlainPath entry :=
    List.forall_mem_singleton.2 (IsWordPath.isPlainPath ⟨["a"], by simp, by decide, by decide⟩)
  have hpaths : p.packages.map usePaths = [[], [["b"]]] := by
    simpa [Function.comp_def] using congrArg (List.map Prod.snd) hpackages
  have huses : ∀ a ∈ p.packages, PlainUses a.files := plainUses_of_usePaths hpaths (by decide)
  have hsub : ∀ entry ∈ (⟨["a"]⟩ : ImportSet).paths,
      entry ∈ (⟨["c", "a", "a"]⟩ : ImportSet).paths := by simp
  exact ⟨p, q, hapart, hentries, huses, hsub, hp, hq,
    by simpa [Function.comp_def] using congrArg (List.map Prod.fst) hpackages, hwider,
    (load_wider hapart hentries huses hsub hp hq).1⟩

/-- A package that uses itself by its own path, and is used by one with a comment in it. -/
def strayTree : FileTree :=
  .ofTexts [(["m", "x.rs"], "use a// /../b\n::c;"), (["a", "x.rs"], ""),
    (["b", "c", "x.rs"], "use b::c::A as B;\nstruct A;")]

/-- **A wider load may tell something else of entries**: a package that is reached by a path which is not its
own is without itself, unless it is reached by its own path as well. -/
theorem not_forall_load_wider : ¬ ∀ (t : FileTree) (framework : FilePath) (others : List FilePath)
    (imports imports' : ImportSet) (p q : Program),
    (SourceRoots.ofFramework t framework others).LieApart t →
    (∀ entry ∈ imports.paths, IsWordPath entry) → (∀ entry ∈ imports'.paths, IsWordPath entry) →
    (∀ entry ∈ imports.paths, entry ∈ imports'.paths) →
    load t (.ofFramework t framework others) imports .tolerant = .ok p →
    load t (.ofFramework t framework others) imports' .tolerant = .ok q →
    ∀ a ∈ p.packages, ∀ f ∈ a.files,
      (Scope.ofFile (surroundingsOf t (.ofFramework t framework others) imports') a.importPath f).found =
        (Scope.ofFile (surroundingsOf t (.ofFramework t framework others) imports) a.importPath f).found := by
  intro hall
  let roots : SourceRoots := .ofFramework strayTree ⟨"/"⟩ []
  obtain ⟨p, hp, hfound⟩ : ∃ p, load strayTree roots ⟨["m"]⟩ .tolerant = .ok p ∧
      p.packages.map (fun a => a.files.map fun f =>
        ((Scope.ofFile (surroundingsOf strayTree roots ⟨["m"]⟩) a.importPath f).found.length,
          (Scope.ofFile (surroundingsOf strayTree roots ⟨["m", "b::c"]⟩) a.importPath f).found.length)) =
        [[(1, 0)], [(0, 0)]] := by
    rw [surroundingsOf_counted, surroundingsOf_counted]
    exact exists_load (by simp) (by decide +kernel)
  obtain ⟨q, hq⟩ : ∃ q, load strayTree roots ⟨["m", "b::c"]⟩ .tolerant = .ok q :=
    ⟨_, load_eq_ok_iff.2 ⟨by simp, rfl, nofun⟩⟩
  have hsame := hall strayTree ⟨"/"⟩ [] ⟨["m"]⟩ ⟨["m", "b::c"]⟩ p q
    (fun root hroot other hother _ _ _ _ _ =>
      (List.mem_singleton.1 hroot).trans (List.mem_singleton.1 hother).symm)
    (List.forall_mem_singleton.2 ⟨["m"], by simp, by decide, by decide⟩)
    (List.forall_mem_cons.2 ⟨⟨["m"], by simp, by decide, by decide⟩,
      List.forall_mem_singleton.2 ⟨["b", "c"], by simp, by decide, by decide⟩⟩)
    (by simp) hp hq
  cases hpackages : p.packages with
  | nil => simp [hpackages] at hfound
  | cons a r =>
    rw [hpackages, List.map_cons] at hfound
    obtain ⟨hfiles, -⟩ := List.cons.inj hfound
    obtain ⟨f, hf, hlengths⟩ := List.map_eq_singleton_iff.1 hfiles
    have hentries := hsame a (by simp [hpackages]) f (by simp [hf])
    obtain ⟨hone, hnone⟩ := Prod.mk.inj hlengths
    rw [hentries] at hnone
    exact absurd (hone.symm.trans hnone) (by decide)

end Program

end ModelPool
