import ModelPool.Proofs.Pool.Location
import ModelPool.Proofs.Text.Trimming

/-!
# Proofs/Load/Roots — from a directory to its import path and back

    /fw  /fw/sub  /ext      the roots
    /ext/m                  a directory:  its import path is  m,  from the first root that contains it
    m                       an import path:  /fw/m, /fw/sub/m, /ext/m  are tried in turn

Under the root that a directory's import path is made from, the path leads back to the directory.  No root
before it contains the directory, so where the path leads under such a root is another directory.

* `importPath?_eq_some_iff` — the root that an import path is made from.
* `find_candidate_steps` — the way back.
* `exists_below_of_candidate` — a root under which the names of a directory lead to it contains it.
-/

namespace ModelPool

open Text

/-! ## Texts that are trimmed already -/

/-- The segments of a package's path are trimmed. -/
theorem ends_of_mem_packageSegments {text s : String} (h : s ∈ packageSegments text) :
    s ≠ "" ∧ (∀ c ∈ s.toList.head?, isBlank c = false) ∧ ∀ c ∈ s.toList.getLast?, isBlank c = false := by
  obtain ⟨cs, hcs, rfl⟩ := List.mem_map.1 h
  obtain ⟨htrim, hne⟩ := List.mem_filter.1 hcs
  obtain ⟨part, -, rfl⟩ := List.mem_map.1 htrim
  obtain ⟨hfirst, hlast⟩ := Text.ends_trim part
  rw [String.toList_ofList]
  refine ⟨fun hempty => ?_, hfirst, hlast⟩
  have hnil : trim part = [] := by
    rw [← String.toList_ofList (l := trim part), hempty]
    rfl
  simp [hnil] at hne

/-- **A path that comes apart into the names it was put together from** is trimmed. -/
theorem trimmed_pathText {names : List String} (hne : names ≠ [])
    (h : packageSegments (pathText names) = names) : trimmed (pathText names) = pathText names := by
  have hends : ∀ s ∈ names, _ := fun s hs => ends_of_mem_packageSegments (h.symm ▸ hs)
  have htoList : ∀ {s : String}, s ≠ "" → s.toList ≠ [] := fun hs hnil =>
    hs (String.toList_inj.1 (hnil.trans rfl))
  rw [trimmed, Text.trim_of_ends, String.ofList_toList]
  · cases names with
    | nil => exact absurd rfl hne
    | cons n r =>
      obtain ⟨hn, hfirst, -⟩ := hends n List.mem_cons_self
      rw [toList_pathText_cons, List.head?_append_of_ne_nil _ (htoList hn)]
      exact hfirst
  · obtain ⟨init, last, rfl⟩ := (List.eq_nil_or_concat names).resolve_left hne
    rw [List.concat_eq_append] at hends ⊢
    obtain ⟨hn, -, hlast⟩ := hends last (List.mem_append_right _ List.mem_cons_self)
    obtain ⟨cs, hcs⟩ : ∃ cs, (pathText (init ++ [last])).toList = cs ++ last.toList := by
      cases init with
      | nil => exact ⟨[], by simp [toList_pathText_cons]⟩
      | cons n r => exact ⟨n.toList ++ (r.flatMap fun s => ':' :: ':' :: s.toList) ++ [':', ':'],
          by simp [toList_pathText_cons]⟩
    rw [hcs, List.getLast?_append_of_ne_nil _ (htoList hn)]
    exact hlast

/-! ## Canonical paths -/

namespace FilePath

theorem filterMap_step?_names {place : List String} (h : ∀ n ∈ place, IsName n) :
    place.filterMap step? = place.map Component.name := by
  induction place with
  | nil => rfl
  | cons n r ih =>
    obtain ⟨hn, hr⟩ := List.forall_mem_cons.1 h
    rw [List.filterMap_cons_some (step?_name hn), ih hr, List.map_cons]

/-- The steps of a canonical path. -/
theorem components_ofPlace {place : List String} (h : ∀ n ∈ place, IsName n) :
    (ofPlace place).components = .root :: place.map .name := by
  unfold components
  rw [parts_ofPlace fun n hn => (h n hn).no_slash]
  dsimp only
  rw [if_pos (isAbsolute_ofPlace place), ← filterMap_step?_names h]
  split
  · next hempty =>
    subst hempty
    rfl
  · rfl

/-- Canonical paths of different places are different. -/
theorem ofPlace_inj {place other : List String} (h : ∀ n ∈ place, IsName n) (h' : ∀ n ∈ other, IsName n)
    (heq : ofPlace place = ofPlace other) : place = other := by
  have hsteps := congrArg components heq
  rw [components_ofPlace h, components_ofPlace h'] at hsteps
  exact List.map_injective_iff.2 (fun _ _ => Component.name.inj) (List.cons.inj hsteps).2

/-- The text of a canonical path: each name behind a slash. -/
theorem toList_ofPlace {place : List String} (hne : place ≠ []) :
    (ofPlace place).text.toList = place.flatMap fun n => '/' :: n.toList := by
  induction place with
  | nil => exact absurd rfl hne
  | cons n r ih =>
    cases r with
    | nil => simp [ofPlace]
    | cons n' r =>
      have hrest := ih (List.cons_ne_nil _ _)
      simp only [ofPlace, String.toList_append] at hrest ⊢
      rw [String.intercalate_cons_cons]
      simpa using hrest

/-- A name inside the directory at a canonical path. -/
theorem child_ofPlace {place : List String} {name : String} (hplace : ∀ n ∈ place, IsName n)
    (hname : IsName name) : (ofPlace place).child name = ofPlace (place ++ [name]) := by
  have htext : ((ofPlace place).child name).text.toList = (ofPlace (place ++ [name])).text.toList := by
    unfold child join
    rw [if_neg (by simp [isAbsolute_name hname])]
    rcases List.eq_nil_or_concat place with rfl | ⟨init, last, rfl⟩
    · simp [ofPlace]
    · rw [List.concat_eq_append] at hplace ⊢
      have hlast := hplace last (by simp)
      have hchars : last.toList ≠ [] := by simpa using hlast.ne_empty
      have hslash : (ofPlace (init ++ [last])).text.toList.getLast? ≠ some '/' := by
        rw [toList_ofPlace (by simp), List.flatMap_append, List.flatMap_singleton,
          List.getLast?_append_of_ne_nil _ (by simp), List.getLast?_cons_of_ne_nil hchars]
        exact fun hend => hlast.no_slash (List.mem_of_getLast? hend)
      have hempty : ¬ (ofPlace (init ++ [last])).text = "" := by simp [ofPlace]
      rw [if_neg (by simp [hempty, hslash]), toList_ofPlace (by simp), List.flatMap_append,
        ← toList_ofPlace (by simp : init ++ [last] ≠ [])]
      simp
  exact congrArg FilePath.mk (String.toList_inj.1 htext)

/-- Only the empty path has no steps. -/
theorem text_of_components {p : FilePath} (h : p.components = []) : p.text = "" := by
  unfold components at h
  cases hparts : p.parts with
  | nil => exact absurd hparts p.parts_ne_nil
  | cons first r =>
    rw [hparts] at h
    dsimp only at h
    split at h
    · simp at h
    · next hrelative =>
      split at h
      · simp at h
      · next hfirst =>
        -- the first piece of a relative path stands for no step only where the path is empty
        have hstep : step? first = none := by
          cases hs : step? first with
          | none => rfl
          | some c => simp [List.filterMap_cons_some hs] at h
        have hempty : first = "" := by
          unfold step? at hstep
          split at hstep
          · next hor => exact hor.resolve_right hfirst
          · split at hstep <;> simp at hstep
        cases htext : p.text.toList with
        | nil => exact String.toList_inj.1 (htext.trans rfl)
        | cons c cs =>
          have hc : c ≠ '/' := fun heq => hrelative (by simp [isAbsolute, htext, heq])
          have hpieces : p.parts.head? ≠ some "" := by
            unfold parts
            rw [htext, pieces, if_neg hc]
            split <;> simp [← String.toList_inj]
          rw [hparts, hempty] at hpieces
          exact absurd rfl hpieces

end FilePath

namespace FileTree

variable {t : FileTree}

/-- **A path of names from the root leads to the directory of these names.** -/
theorem find_of_components {p : FilePath} {place : Place} (hp : p.components = .root :: place.map .name)
    (h : t.at? place = some .directory) : t.find p = .ok (place, .directory) := by
  have hne : ¬ p.text.isEmpty = true := by
    intro hempty
    simp [FilePath.components, FilePath.parts, FilePath.isAbsolute, FilePath.step?,
      String.isEmpty_iff.1 hempty, pieces] at hp
  have hup : .up ∉ p.components := by simp [hp]
  rcases p.components_cases with ⟨habsolute, cs, hcs, -⟩ | ⟨-, hinner⟩
  · obtain ⟨first, -, hparts⟩ := FilePath.isAbsolute_iff.1 habsolute
    have hleads : t.leads p = place := by
      have hsteps : first.filterMap FilePath.step? = place.map .name := by
        have hcomponents := hp
        unfold FilePath.components at hcomponents
        rw [hparts] at hcomponents
        dsimp only at hcomponents
        rw [if_pos habsolute] at hcomponents
        exact (List.cons.inj hcomponents).2
      have hnames : (place.map Component.name).filterMap Component.name? = place := by
        rw [List.filterMap_map]
        exact List.filterMap_some
      rw [leads, base, if_pos habsolute, leadsTo_eq_append (FilePath.up_not_mem_parts hup), hparts,
        FilePath.namesOf_cons, FilePath.namesOf, hsteps, hnames]
      rfl
    rw [← hleads] at h ⊢
    exact t.findsDirectory_of_not_up hne (FilePath.up_not_mem_parts hup) h
  · have hroot := hinner .root (by simp [hp])
    exact absurd hroot.piece_eq (by decide)

/-- **Names below a place** spell the canonical path of another one. -/
theorem candidate_ofPlace {place names : Place} (h : ∀ n ∈ place ++ names, IsName n) :
    SourceRoots.candidate (.ofPlace place) names = .ofPlace (place ++ names) := by
  induction names generalizing place with
  | nil => rw [List.append_nil]; rfl
  | cons n rest ih =>
    have hchild := FilePath.child_ofPlace (fun m hm => h m (List.mem_append_left _ hm)) (h n (by simp))
    change SourceRoots.candidate ((FilePath.ofPlace place).child n) rest = _
    rw [List.append_cons] at h ⊢
    rw [hchild, ih h]

/-- **Names that lead to a directory** lead there from a directory. -/
theorem find_of_candidate {root : FilePath} {names : List String} {place : Place}
    (hne : ¬ root.text.isEmpty = true) (hnames : ∀ n ∈ names, IsName n)
    (h : t.find (SourceRoots.candidate root names) = .ok (place, .directory)) :
    ∃ r, t.find root = .ok (r, .directory) ∧ place = r ++ names := by
  induction names generalizing root with
  | nil => exact ⟨place, h, (List.append_nil _).symm⟩
  | cons n rest ih =>
    obtain ⟨hn, hrest⟩ := List.forall_mem_cons.1 hnames
    have hchild : ¬ (root.child n).text.isEmpty = true :=
      not_isEmpty_join hne (FilePath.isAbsolute_name hn)
    obtain ⟨q, hq, rfl⟩ := ih hchild hrest h
    obtain ⟨-, r, hr, rfl⟩ := (t.place_child_iff hne hn).1 (t.find_eq_ok_iff.1 hq).1
    exact ⟨r, hr, by simp⟩

end FileTree

/-! ## The roots of a context -/

namespace SourceRoots

open FileTree

variable {t : FileTree} {framework : FilePath} {others : List FilePath} {root : FilePath} {place : Place}

/-- **The root that an import path is made from** is the first one that contains the directory. -/
theorem importPath?_eq_some_iff {roots : SourceRoots} {dir : FilePath} {path : String} :
    roots.importPath? t dir = some path ↔ ∃ before root after steps,
      roots.all = before ++ root :: after ∧ root.below? (t.normalized dir) = some steps ∧ steps ≠ [] ∧
      path = pathText (steps.map Component.text) ∧
      ∀ r ∈ before, ∀ steps, r.below? (t.normalized dir) = some steps → steps = [] := by
  unfold importPath?
  rw [List.findSome?_eq_some_iff]
  constructor
  · rintro ⟨before, root, after, hall, hroot, hbefore⟩
    split at hroot
    · simp at hroot
    · simp at hroot
    · next steps hne hbelow =>
      refine ⟨before, root, after, steps, hall, hbelow, hne, (Option.some.inj hroot).symm, ?_⟩
      intro r hr steps hsteps
      have hnone := hbefore r hr
      rw [hsteps] at hnone
      cases steps with
      | nil => rfl
      | cons _ _ => simp at hnone
  · rintro ⟨before, root, after, steps, hall, hbelow, hne, rfl, hbefore⟩
    refine ⟨before, root, after, hall, ?_, fun r hr => ?_⟩
    · rw [hbelow]
      cases steps with
      | nil => exact absurd rfl hne
      | cons _ _ => rfl
    · cases hsteps : r.below? (t.normalized dir) with
      | none => rfl
      | some steps =>
        rw [hbefore r hr steps hsteps]

theorem framework_addRoot (roots : SourceRoots) (root : FilePath) :
    (roots.addRoot root).framework = roots.framework := by
  unfold addRoot
  split <;> rfl

theorem mem_all_addRoot {roots : SourceRoots} {added : FilePath} (h : root ∈ (roots.addRoot added).all) :
    root ∈ roots.all ∨ root = added := by
  unfold addRoot at h
  split at h
  · exact .inl h
  · simpa [all, or_assoc] using h

theorem mem_all_foldl_add {roots : SourceRoots} (h : root ∈ (others.foldl (add t) roots).all) :
    root ∈ roots.all ∨ ∃ p, root = t.normalized (roots.framework.join p) := by
  induction others generalizing roots with
  | nil => exact .inl h
  | cons p r ih =>
    rw [List.foldl_cons] at h
    rcases ih h with hadded | ⟨q, hq⟩
    · exact (mem_all_addRoot hadded).imp_right fun heq => ⟨p, heq⟩
    · rw [add, framework_addRoot] at hq
      exact .inr ⟨q, hq⟩

/-- Each root is the framework's or that of a path seen from there, canonical if it leads anywhere. -/
theorem mem_all_ofFramework (h : root ∈ (ofFramework t framework others).all) :
    root = t.normalized framework ∨ ∃ p, root = t.normalized ((t.normalized framework).join p) :=
  (mem_all_foldl_add h).imp_left fun hroot => by simpa [all] using hroot

theorem normalized_of_error {p : FilePath} {cause : IoError} (h : t.find p = .error cause) :
    t.normalized p = p := by
  simp [normalized, canonical, h, Except.map]

/-- A path is canonical or itself, and canonical ones have steps. -/
theorem text_of_normalized {p : FilePath} (h : (t.normalized p).components = []) : p.text = "" := by
  cases hp : t.find p with
  | error cause =>
    rw [normalized_of_error hp] at h
    exact FilePath.text_of_components h
  | ok found =>
    rw [normalized_of_find hp,
      FilePath.components_ofPlace (t.isName_of_at? (t.find_eq_ok_iff.1 hp).2)] at h
    exact absurd h (by simp)

/-- Only empty paths are joined to an empty path. -/
theorem text_of_join {p q : FilePath} (h : (p.join q).text = "") : p.text = "" := by
  have hrelative : q.isAbsolute = false := by
    cases habsolute : q.isAbsolute with
    | false => rfl
    | true =>
      rw [FilePath.join_absolute _ habsolute] at h
      simp [FilePath.isAbsolute, h] at habsolute
  obtain ⟨s, hs⟩ := p.exists_text_join hrelative
  rw [h] at hs
  exact (String.append_eq_empty_iff.1 hs.symm).1

/-- A root that leads somewhere is the canonical path of that. -/
theorem eq_ofPlace_of_find {e : Entry} (h : root ∈ (ofFramework t framework others).all)
    (hfind : t.find root = .ok (place, e)) : root = .ofPlace place := by
  have hnormal : ∀ p, root = t.normalized p → root = .ofPlace place := by
    rintro p rfl
    cases hq : t.find p with
    | error cause =>
      rw [normalized_of_error hq] at hfind
      exact absurd (hq.symm.trans hfind) (by simp)
    | ok found =>
      have hcanonical := t.find_ofPlace (t.find_eq_ok_iff.1 hq).2
      rw [normalized_of_find hq] at hfind ⊢
      obtain ⟨rfl, -⟩ := Prod.mk.inj (Except.ok.inj (hcanonical.symm.trans hfind))
      rfl
  rcases mem_all_ofFramework h with hp | ⟨p, hp⟩
  · exact hnormal _ hp
  · exact hnormal _ hp

/-- **Only the framework's root may be empty**, and then it is the first one. -/
theorem before_eq_nil_of_components {before after : List FilePath}
    (h : (ofFramework t framework others).all = before ++ root :: after) (hroot : root.components = []) :
    before = [] := by
  have hfirst : root = t.normalized framework := by
    rcases mem_all_ofFramework (h ▸ List.mem_append_right before List.mem_cons_self) with hp | ⟨p, hp⟩
    · exact hp
    · have htext : (t.normalized framework).text = "" := text_of_join (text_of_normalized (hp ▸ hroot))
      have hempty : root.text = (t.normalized framework).text :=
        (FilePath.text_of_components hroot).trans htext.symm
      cases root
      exact congrArg FilePath.mk hempty
  have hnodup := nodup_steps_ofFramework t framework others
  cases before with
  | nil => rfl
  | cons b r =>
    have hb : b = t.normalized framework := by
      rw [← framework_ofFramework t framework others]
      exact (List.cons.inj h).1.symm
    rw [steps, h, hb, ← hfirst, List.cons_append, List.map_cons, List.nodup_cons] at hnodup
    exact absurd (List.mem_map_of_mem (List.mem_append_right r List.mem_cons_self)) hnodup.1

/-! ## The way back -/

theorem map_text_names (names : List String) : (names.map Component.name).map Component.text = names := by
  rw [List.map_map]
  exact List.map_id names

section Steps

variable {steps : List Component} (h : root.below? (.ofPlace place) = some steps)

include h

/-- **A path that contains a place** is empty, or the names of the place begin with its own. -/
theorem below?_cases (hplace : ∀ n ∈ place, IsName n) :
    (root.components = [] ∧ steps = .root :: place.map .name) ∨
      ∃ lead rest, root.components = .root :: lead.map .name ∧ steps = rest.map .name ∧
        place = lead ++ rest := by
  have hsteps := FilePath.stepsBelow?_eq_some_iff.1 h
  rw [FilePath.components_ofPlace hplace] at hsteps
  cases hroot : root.components with
  | nil =>
    rw [hroot] at hsteps
    exact .inl ⟨rfl, hsteps.symm⟩
  | cons first r =>
    rw [hroot, List.cons_append] at hsteps
    obtain ⟨rfl, hnames⟩ := List.cons.inj hsteps
    obtain ⟨lead, rest, rfl, rfl, rfl⟩ := List.map_eq_append_iff.1 hnames
    exact .inr ⟨lead, rest, rfl, rfl, rfl⟩

/-- **The steps from a root down to a directory lead there.** -/
theorem find_candidate_steps (hat : t.at? place = some .directory) :
    t.find (candidate root (steps.map Component.text)) = .ok (place, .directory) := by
  rcases below?_cases h (t.isName_of_at? hat) with ⟨-, rfl⟩ | ⟨lead, rest, hroot, rfl, rfl⟩
  · have hslash : root.child "/" = .ofPlace [] := root.join_absolute (q := ⟨"/"⟩) (by decide)
    rw [List.map_cons, map_text_names]
    change t.find (candidate (root.child "/") place) = _
    rw [hslash]
    exact find_candidate (t.find_ofPlace t.at?_root) hat
  · rw [map_text_names]
    exact find_candidate (find_of_components hroot (t.directory_above (List.prefix_append _ _) hat)) hat

/-- **Where they lead there under a root before, that root contains the directory** as well. -/
theorem exists_below_of_candidate {before after : List FilePath} {r : FilePath}
    (hall : (ofFramework t framework others).all = before ++ root :: after) (hne : steps ≠ [])
    (hat : t.at? place = some .directory) (hr : r ∈ before)
    (hfind : t.find (candidate r (steps.map Component.text)) = .ok (place, .directory)) :
    ∃ steps', steps' ≠ [] ∧ r.below? (.ofPlace place) = some steps' := by
  have hplace := t.isName_of_at? hat
  rcases below?_cases h hplace with ⟨hroot, -⟩ | ⟨lead, rest, -, rfl, rfl⟩
  · rw [before_eq_nil_of_components hall hroot] at hr
    exact absurd hr List.not_mem_nil
  · rw [map_text_names] at hfind
    by_cases hempty : r.text.isEmpty = true
    · have hcomponents : r.components = [] := by
        cases r
        obtain rfl := String.isEmpty_iff.1 hempty
        decide
      refine ⟨.root :: (lead ++ rest).map .name, by simp, FilePath.stepsBelow?_eq_some_iff.2 ?_⟩
      rw [hcomponents, FilePath.components_ofPlace hplace]
      rfl
    · obtain ⟨lead', hlead, heq⟩ := find_of_candidate hempty
        (fun n hn => hplace n (List.mem_append_right lead hn)) hfind
      obtain rfl := List.append_cancel_right heq
      have hmem : r ∈ (ofFramework t framework others).all := hall ▸ List.mem_append_left _ hr
      refine ⟨_, hne, FilePath.stepsBelow?_eq_some_iff.2 ?_⟩
      rw [eq_ofPlace_of_find hmem hlead, FilePath.components_ofPlace hplace,
        FilePath.components_ofPlace fun n hn => hplace n (List.mem_append_left rest hn), List.map_append]
      rfl

end Steps

end SourceRoots

end ModelPool
