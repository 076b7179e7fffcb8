import ModelPool.Proofs.Check.Part
import ModelPool.Proofs.Load.Reload
import ModelPool.Proofs.Load.Strict

/-!
# Proofs/Load/Part — loading only a part of what a strict program starts from

    imports    pool  a     ──walk──▸ pool, a, b, c     no problems
    of these   pool        ──walk──▸ pool, b           c is not reached

A load from fewer paths lists fewer packages, each of them the same.  The walk tells nothing that it has
not told before, and no package declares a name twice that did not.  So all that can go wrong is that a file
refers to a package which is not reached any more.

* `diagnostics_walk_of_subset` — a walk from fewer paths tells nothing.
* `load_part_iff` — when a part loads strictly as well.
-/

namespace ModelPool

open Text

/-! ## What a walk tells -/

namespace ImportGraph

variable {g : ImportGraph} {starts starts' : List String}

/-- What is told of an import is told of a path that the load starts from. -/
theorem diagnostics_import_eq_nil {path : String} {initial : Bool} {found : Found}
    (h : found.diagnostics path initial = []) : found.diagnostics path false = [] := by
  cases found with
  | missing => rfl
  | unreadable e => exact h
  | package info => exact h

/-- **A silent walk has nothing to tell of what it reaches.** -/
theorem diagnostics_eq_nil_of_reachable (h : (g.walk starts).diagnostics = []) {p : String}
    (hp : g.Reachable starts p) : (g.lookup p).diagnostics p false = [] := by
  have hwalk : (g.walk starts).diagnostics = [] →
      ∀ q ∈ (g.walk starts).visited, (g.lookup q).diagnostics q false = [] := by
    refine walk_induction (I := fun (_ : List g.Frame) w => w.diagnostics = [] →
      ∀ q ∈ w.visited, (g.lookup q).diagnostics q false = []) ?_ fun _ q hq => absurd hq List.not_mem_nil
    -- every step that enters a path adds to the diagnostics what is told of the path
    have henter : ∀ {w : Walk} {q : String} {initial : Bool} {found : Found},
        g.lookup q = found →
        (w.diagnostics = [] → ∀ q ∈ w.visited, (g.lookup q).diagnostics q false = []) →
        (w.enter q initial found).diagnostics = [] →
        ∀ r ∈ (w.enter q initial found).visited, (g.lookup r).diagnostics r false = [] := by
      rintro w q initial found rfl hw hnil
      obtain ⟨hbefore, hfound⟩ := List.append_eq_nil_iff.1 hnil
      exact List.forall_mem_cons.2 ⟨diagnostics_import_eq_nil hfound, hw hbefore⟩
    intro stack w stack' w' hstep hw
    cases hstep with
    | start _ _ hl => exact henter hl hw
    | startLeaf _ _ _ => exact henter rfl hw
    | seen _ _ => exact hw
    | enter _ _ hl => exact henter hl hw
    | leaf _ _ _ => exact henter rfl hw
    | list _ => exact hw
  exact hwalk h p (mem_visited_of_reachable hp)

/-- **A walk is silent where there is nothing to tell** of what it starts from and of what it reaches. -/
theorem diagnostics_walk_eq_nil (hstarts : ∀ p ∈ starts, (g.lookup p).diagnostics p true = [])
    (hreach : ∀ p, g.Reachable starts p → (g.lookup p).diagnostics p false = []) :
    (g.walk starts).diagnostics = [] := by
  have hwalk : Traced starts ([] : List g.Frame) (g.walk starts) ∧ (g.walk starts).diagnostics = [] := by
    refine walk_induction (I := fun stack w => Traced starts stack w ∧ w.diagnostics = []) ?_
      ⟨⟨Met.start g, Followed.start g, fun _ hp => absurd hp List.not_mem_nil⟩, rfl⟩
    rintro stack w stack' w' hstep ⟨htraced, hnil⟩
    refine ⟨htraced.step hstep, ?_⟩
    cases hstep with
    | @start path info _ hs _ hl =>
      have htold := hstarts path hs
      rw [hl] at htold
      exact List.append_eq_nil_iff.2 ⟨hnil, htold⟩
    | startLeaf hs _ _ => exact List.append_eq_nil_iff.2 ⟨hnil, hstarts _ hs⟩
    | seen _ _ => exact hnil
    | @enter f q rest info below _ hr _ hl =>
      have htold := hreach q (htraced.reachable_rest List.mem_cons_self hr)
      rw [hl] at htold
      exact List.append_eq_nil_iff.2 ⟨hnil, htold⟩
    | leaf hr _ _ =>
      exact List.append_eq_nil_iff.2 ⟨hnil, hreach _ (htraced.reachable_rest List.mem_cons_self hr)⟩
    | list _ => exact hnil
  exact hwalk.2

/-- **A walk from fewer paths is silent** if there is a package behind each of them. -/
theorem diagnostics_walk_of_subset (h : (g.walk starts).diagnostics = [])
    (hsub : ∀ p ∈ starts', p ∈ starts) (hpackage : ∀ p ∈ starts', ¬ g.IsLeaf p) :
    (g.walk starts').diagnostics = [] := by
  refine diagnostics_walk_eq_nil (fun p hp => ?_) fun p hp => ?_
  · obtain ⟨info, hl⟩ : ∃ info, g.lookup p = .package info := by
      simpa [IsLeaf] using hpackage p hp
    have htold := diagnostics_eq_nil_of_reachable h (reachable_of_mem (hsub p hp))
    rw [hl] at htold ⊢
    exact htold
  · obtain ⟨s, hs, hreach⟩ := hp
    exact diagnostics_eq_nil_of_reachable h ⟨s, hsub s hs, hreach⟩

end ImportGraph

/-! ## Packages of a part -/

namespace Program

variable {t : FileTree} {roots : SourceRoots} {imports imports' : ImportSet} {p : Program}

/-- What is listed from fewer paths is listed. -/
theorem mem_loaded_of_subset (hsub : ∀ entry ∈ imports'.paths, entry ∈ imports.paths)
    {x : String × PackageInfo} (hx : x ∈ (walkOf t roots imports').loaded) :
    x ∈ (walkOf t roots imports).loaded := by
  obtain ⟨hinfo, entry, hentry, hreach⟩ := mem_loaded_iff.1 hx
  exact mem_loaded_iff.2 ⟨hinfo, entry, hsub entry hentry, hreach⟩

/-- **The surroundings of a listed package** when fewer packages are listed. -/
theorem part_surroundingsOf (hsub : ∀ entry ∈ imports'.paths, entry ∈ imports.paths)
    {x : String × PackageInfo} (hx : x ∈ (walkOf t roots imports').loaded) :
    (surroundingsOf t roots imports').Part (surroundingsOf t roots imports) x.1 where
  classify := rfl
  own := by
    rw [Reload.declarations?_eq_some_iff.2 ⟨x.2, hx, rfl⟩]
    rfl
  same := by
    intro owner hloaded
    obtain ⟨ds, hds⟩ := Option.isSome_iff_exists.1 hloaded
    obtain ⟨info, hinfo, rfl⟩ := Reload.declarations?_eq_some_iff.1 hds
    rw [hds, Reload.declarations?_eq_some_iff.2 ⟨info, mem_loaded_of_subset hsub hinfo, rfl⟩]

/-- **When a part of a strict program loads strictly**: each file that is reached makes do with what is
reached. -/
theorem load_part_iff (h : load t roots imports .strict = .ok p) (hne : imports'.paths ≠ [])
    (hsub : ∀ entry ∈ imports'.paths, entry ∈ imports.paths) :
    (∃ q, load t roots imports' .strict = .ok q) ↔
      ∀ x ∈ (walkOf t roots imports').loaded, ∀ f ∈ x.2.files,
        f.MakesDo (surroundingsOf t roots imports') (surroundingsOf t roots imports) x.1 := by
  obtain ⟨hwalk, hnames, hfiles⟩ := (diagnostics_eq_nil_iff h).1 ((load_eq_ok_iff.1 h).2.2 rfl)
  -- a tolerant load of the part has the diagnostics that a strict one refuses
  obtain ⟨q, hq⟩ : ∃ q, load t roots imports' .tolerant = .ok q :=
    ⟨_, load_eq_ok_iff.2 ⟨hne, rfl, nofun⟩⟩
  have hpackage : ∀ path ∈ imports'.paths.map trimmed,
      ¬ (ImportGraph.ofTree t roots).IsLeaf path := by
    intro path hpath hleaf
    obtain ⟨entry, hentry, rfl⟩ := List.mem_map.1 hpath
    obtain ⟨a, ha, hapath⟩ := exists_package_of_entry h (hsub entry hentry)
    obtain ⟨info, -, hinfo, -⟩ := (mem_packages_iff h).1 ha
    rw [hapath] at hinfo
    exact hleaf info (SourceRoots.lookup_ofTree_iff.2 hinfo)
  have hsilent : (walkOf t roots imports').diagnostics = [] := by
    refine ImportGraph.diagnostics_walk_of_subset hwalk (fun path hpath => ?_) hpackage
    obtain ⟨entry, hentry, rfl⟩ := List.mem_map.1 hpath
    exact List.mem_map_of_mem (hsub entry hentry)
  have hclean : q.diagnostics = [] ↔ ∀ x ∈ (walkOf t roots imports').loaded, ∀ f ∈ x.2.files,
      f.MakesDo (surroundingsOf t roots imports') (surroundingsOf t roots imports) x.1 := by
    rw [diagnostics_eq_nil_iff hq, and_iff_right hsilent,
      and_iff_right fun x hx => hnames x (mem_loaded_of_subset hsub hx)]
    refine forall₂_congr fun x hx => forall₂_congr fun f hf => ?_
    exact SourceFile.found_check_part_iff (part_surroundingsOf hsub hx)
      (hfiles x (mem_loaded_of_subset hsub hx) f hf)
  rw [← hclean]
  obtain ⟨-, rfl, -⟩ := load_eq_ok_iff.1 hq
  constructor
  · rintro ⟨q, hstrict⟩
    obtain ⟨-, rfl, hnil⟩ := load_eq_ok_iff.1 hstrict
    exact hnil rfl
  · intro hnil
    exact ⟨_, load_eq_ok_iff.2 ⟨hne, rfl, fun _ => hnil⟩⟩

end Program

end ModelPool
