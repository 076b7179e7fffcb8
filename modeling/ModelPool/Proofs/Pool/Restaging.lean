import ModelPool.Pool.Stage
import ModelPool.Proofs.Files.Directories
import ModelPool.Proofs.Pool.Writing

/-!
# Proofs/Pool/Restaging — clearing the pool forgets what stood there

    tree ──remove──▸ bare ──makeDirectories──▸ made ──writeFile──▸ staged
                       ▴                                             │
                       └────────────────── remove ◂─────── filled ◂──┘

Trees that only differ at the pool's place or below it are the same once the pool is removed.  So clearing
the pool gives the same in both, if it is found wherever something stands at its place: a path that leads
through a directory which is missing, or that ends in a slash where a file stands, does not find it.

* `stage_eq_of_sameOutside` — what stood at the pool's place is forgotten.
* `stage_of_fills` — a pool that has been cleared and filled is cleared like the old one.
-/

namespace ModelPool

namespace FileTree

/-! ## Trees that differ at one place -/

/-- **Two trees are the same outside a place**: they differ at most there and below. -/
structure SameOutside (d : Place) (t u : FileTree) : Prop where
  current : u.current = t.current
  at?_eq : ∀ place, ¬ d <+: place → u.at? place = t.at? place

variable {t u v : FileTree} {d q : Place} {p : FilePath}

namespace SameOutside

theorem symm (h : SameOutside d t u) : SameOutside d u t :=
  ⟨h.current.symm, fun place hplace => (h.at?_eq place hplace).symm⟩

theorem trans (h : SameOutside d t u) (h' : SameOutside d u v) : SameOutside d t v :=
  ⟨h'.current.trans h.current, fun place hplace =>
    (h'.at?_eq place hplace).trans (h.at?_eq place hplace)⟩

theorem removeBelow (t : FileTree) (hd : d ≠ []) : SameOutside d t (t.removeBelow d) :=
  ⟨rfl, fun place hplace => by rw [t.at?_removeBelow hd, if_neg hplace]⟩

/-- **They are the same once the place is removed.** -/
theorem removeBelow_eq (h : SameOutside d t u) (hd : d ≠ []) : u.removeBelow d = t.removeBelow d := by
  refine ext_at? h.current fun place => ?_
  rw [u.at?_removeBelow hd, t.at?_removeBelow hd]
  split
  · rfl
  · next hplace => exact h.at?_eq place hplace

/-- And where nothing stands at the place, one of them has what the other has. -/
theorem kept (h : SameOutside d t u) (hnone : t.at? d = none) {place : Place} {e : Entry}
    (he : t.at? place = some e) : u.at? place = some e := by
  rw [h.at?_eq, he]
  intro hbelow
  exact absurd ((at?_below hnone hbelow).symm.trans he) (by simp)

theorem leads_eq (h : SameOutside d t u) (p : FilePath) : u.leads p = t.leads p := by
  rw [leads, leads, base_congr h.current]

end SameOutside

theorem removeBelow_eq_self (hd : d ≠ []) (hnone : t.at? d = none) : t.removeBelow d = t := by
  refine ext_at? rfl fun place => ?_
  rw [t.at?_removeBelow hd]
  split
  · next hbelow => exact (at?_below hnone hbelow).symm
  · rfl

/-! ## Following paths in both -/

/-- **A path that meets a file meets it** in a tree that has all that the first one has. -/
theorem place_of_kept (hcurrent : u.current = t.current)
    (hkept : ∀ place e, t.at? place = some e → u.at? place = some e) {e : IoError}
    (he : e ≠ .notFound) (h : t.place p = .error e) : u.place p = .error e := by
  have hlocate : ∀ {start : Place} {ps : List String},
      t.locate start ps = .error e → u.locate start ps = .error e := by
    intro start ps
    induction ps generalizing start with
    | nil => simp [locate]
    | cons piece r ih =>
      intro hfail
      cases hat : t.at? start with
      | none =>
        rw [t.locate_of_none (List.cons_ne_nil _ _) hat] at hfail
        exact absurd (Except.error.inj hfail).symm he
      | some entry =>
        have hat' := hkept _ _ hat
        cases entry with
        | file bytes =>
          rw [t.locate_of_file (List.cons_ne_nil _ _) hat] at hfail
          rw [u.locate_of_file (List.cons_ne_nil _ _) hat', hfail]
        | directory =>
          rw [t.locate_cons hat] at hfail
          rw [u.locate_cons hat']
          by_cases hpiece : fits piece = true
          · rw [if_pos hpiece] at hfail ⊢
            exact ih hfail
          · rwa [if_neg hpiece] at hfail ⊢
  by_cases hempty : p.text.isEmpty = true
  · rw [FileTree.place, if_pos hempty] at h
    exact absurd (Except.error.inj h).symm he
  · rw [t.place_eq_locate hempty] at h
    rw [u.place_eq_locate hempty, base_congr hcurrent]
    exact hlocate h

/-! ## Clearing the pool in both -/

/-- **Whatever stands where a path leads is found.** -/
def FindsEntry (t : FileTree) (p : FilePath) : Prop :=
  ∀ e, t.at? (t.leads p) = some e → t.find p = .ok (t.leads p, e)

theorem findsEntry_of_none (h : t.at? (t.leads p) = none) : t.FindsEntry p := fun e he =>
  absurd (h.symm.trans he) (by simp)

/-- **The old pool is found at a path**, and nothing is left behind where the pool cannot be made there. -/
structure Finds (t : FileTree) (p : FilePath) : Prop where
  found : t.FindsEntry p
  left_eq : ∀ bare e, t.cleared p = .ok bare → bare.makeDirectories p = .error e →
    bare.leftByDirectories p = bare

/-- Nothing is left behind where the pool can be made. -/
theorem FindsEntry.finds (h : t.FindsEntry p)
    (hmade : (t.cleared p >>= fun bare => bare.makeDirectories p).isOk = true) : t.Finds p := by
  refine ⟨h, fun bare e hclear hmake => ?_⟩
  obtain ⟨made, hboth⟩ := exists_eq_ok_of_isOk hmade
  obtain ⟨_, hclear', hmake'⟩ := bind_eq_ok_iff.1 hboth
  obtain rfl := Except.ok.inj (hclear.symm.trans hclear')
  exact absurd (hmake.symm.trans hmake') (by simp)

/-- What stands behind pieces that do not go up is reached. -/
theorem locate_of_some (t : FileTree) {start : Place} {ps : List String} {name : String} {e : Entry}
    (hup : ".." ∉ ps) (hname : IsName name) (h : t.at? (leadsTo start (ps ++ [name])) = some e) :
    t.locate start (ps ++ [name]) = .ok (leadsTo start (ps ++ [name])) := by
  have hlast : leadsTo start (ps ++ [name]) = leadsTo start ps ++ [name] := by
    rw [leadsTo_append]
    simp [leadsTo, FilePath.step?_name hname]
  rw [hlast] at h ⊢
  have hdir := t.at?_parent h
  exact t.locate_append_iff.2
    ⟨_, t.locate_of_directory hup hdir,
      (t.locate_singleton hname).2 ⟨hdir, (t.isEntryName_of_at? h name (by simp)).fits, rfl⟩⟩

/-- A path that ends in a name leads below the root. -/
theorem leads_ne_nil (hp : p.EndsInName) (t : FileTree) : t.leads p ≠ [] := by
  obtain ⟨ps, name, n, hname, hparts⟩ := hp.exists_parts
  rw [leads, hparts, leadsTo_append, leadsTo_replicate, leadsTo_append]
  simp [leadsTo, FilePath.step?_name hname]

theorem cleared_of_find {e : Entry} (h : t.find p = .ok (q, e)) (hq : q ≠ []) :
    t.cleared p = .ok (t.removeBelow q) := by
  simp [cleared, remove, h, hq, bind, Except.bind]

/-- **What clearing the pool removes**: all that stands at its place.  It fails only where a file stands in
the way or a name is too long, and then nothing stands at the place. -/
theorem cleared_cases (hp : p.EndsInName) (h : t.FindsEntry p) :
    t.cleared p = .ok (t.removeBelow (t.leads p)) ∨
      t.at? (t.leads p) = none ∧ ∃ e, e ≠ .notFound ∧ t.place p = .error e ∧ t.cleared p = .error e := by
  have hroot := leads_ne_nil hp t
  cases hat : t.at? (t.leads p) with
  | some e =>
    exact .inl (cleared_of_find (h e hat) hroot)
  | none =>
    cases hplace : t.place p with
    | ok q =>
      have hfind : t.find p = .error .notFound := by
        have hq : q = t.leads p := t.eq_leads hplace
        unfold find
        rw [hplace]
        simp [bind, Except.bind, hq, hat]
      refine .inl ?_
      rw [removeBelow_eq_self hroot hat, cleared, hfind]
    | error e =>
      have hfind : t.find p = .error e := by
        unfold find
        rw [hplace]
        rfl
      by_cases he : e = .notFound
      · refine .inl ?_
        rw [removeBelow_eq_self hroot hat, cleared, hfind, he]
      · refine .inr ⟨rfl, e, he, rfl, ?_⟩
        rw [cleared, hfind]
        cases e with
        | notFound => exact absurd rfl he
        | _ => rfl

/-- Where a file stands in the way, trees that are the same outside the place are the same. -/
theorem SameOutside.eq_of_place_error (h : SameOutside (t.leads p) t u) (hu : u.FindsEntry p)
    (hnone : t.at? (t.leads p) = none) {e : IoError} (he : e ≠ .notFound)
    (hplace : t.place p = .error e) : u = t := by
  have hplaceu : u.place p = .error e :=
    place_of_kept h.current (fun place entry => h.kept hnone) he hplace
  have hnoneu : u.at? (t.leads p) = none := by
    cases hat : u.at? (t.leads p) with
    | none => rfl
    | some entry =>
      have hfind := hu entry (h.leads_eq p ▸ hat)
      exact absurd (hplaceu.symm.trans (u.find_eq_ok_iff.1 hfind).1) (by simp)
  refine ext_at? h.current fun place => ?_
  by_cases hbelow : t.leads p <+: place
  · rw [at?_below hnone hbelow, at?_below hnoneu hbelow]
  · exact h.at?_eq place hbelow

theorem stage_congr (h : u.cleared p = t.cleared p) (hok : ∃ bare, t.cleared p = .ok bare) :
    u.stage p = t.stage p := by
  obtain ⟨bare, hbare⟩ := hok
  unfold stage
  rw [h, hbare]

/-- **What stood at the pool's place is forgotten**: clearing the pool gives the same in trees that are the
same outside. -/
theorem stage_eq_of_sameOutside (hp : p.EndsInName) (h : SameOutside (t.leads p) t u)
    (ht : t.FindsEntry p) (hu : u.FindsEntry p) : u.stage p = t.stage p := by
  have hleads := h.leads_eq p
  rcases cleared_cases hp ht with hct | ⟨hnone, e, he, hplace, -⟩
  · rcases cleared_cases hp hu with hcu | ⟨hnone, e, he, hplace, -⟩
    · refine stage_congr ?_ ⟨_, hct⟩
      rw [hcu, hct, hleads, h.removeBelow_eq (leads_ne_nil hp t)]
    · have hback : SameOutside (u.leads p) u t := hleads ▸ h.symm
      rw [hback.eq_of_place_error ht hnone he hplace]
  · rw [h.eq_of_place_error hu hnone he hplace]

/-! ## Clearing the pool again -/

/-- **A tree is filled at a place**: it has changed there or below, and no directory and no file is lost. -/
structure Fills (d : Place) (t u : FileTree) : Prop where
  outside : SameOutside d t u
  kept : ∀ place, t.at? place = some .directory → u.at? place = some .directory
  files : ∀ place bytes, t.at? place = some (.file bytes) → ∃ bytes', u.at? place = some (.file bytes')

namespace Fills

theorem refl (d : Place) (t : FileTree) : Fills d t t :=
  ⟨⟨rfl, fun _ _ => rfl⟩, fun _ h => h, fun _ bytes h => ⟨bytes, h⟩⟩

theorem trans (h : Fills d t u) (h' : Fills d u v) : Fills d t v where
  outside := h.outside.trans h'.outside
  kept := fun place hplace => h'.kept place (h.kept place hplace)
  files := by
    intro place bytes hplace
    obtain ⟨bytes', hplace'⟩ := h.files place bytes hplace
    exact h'.files place bytes' hplace'

/-- The directory at the place is still found. -/
theorem find (h : Fills d t u) (hfind : t.find p = .ok (d, .directory)) :
    u.find p = .ok (d, .directory) :=
  find_directory_of_kept h.outside.current h.kept hfind

/-- Packages are still found. -/
theorem isSome_find? (h : Fills d t u) {roots : SourceRoots} {path : String}
    (hfound : (roots.find? t path).isSome = true) : (roots.find? u path).isSome = true :=
  isSome_find?_of_kept h.outside.current h.kept h.files hfound

/-- **A file written into the directory fills it.** -/
theorem writeFile {name : String} {bytes : ByteArray} (hfind : t.find p = .ok (d, .directory))
    (hname : IsName name) (h : t.writeFile (p.child name) bytes = .ok u) : Fills d t u := by
  obtain ⟨place, hplace, hfile, hputs⟩ := puts_of_writeFile h
  obtain rfl := t.eq_of_place_child hfind hname hplace
  refine ⟨⟨hputs.current, fun other hother => ?_⟩, fun other hother => ?_, fun other old hother => ?_⟩
  · rw [hputs.at?_eq, if_neg]
    rintro rfl
    exact hother (List.prefix_append _ _)
  · rw [hputs.at?_eq, if_neg, hother]
    rintro rfl
    exact hfile hother
  · rw [hputs.at?_eq]
    split
    · exact ⟨bytes, rfl⟩
    · exact ⟨old, hother⟩

end Fills

section Made

variable {made : FileTree} (hp : p.EndsInName)
  (hclear : t.cleared p = .ok (t.removeBelow (t.leads p)))
  (hmake : (t.removeBelow (t.leads p)).makeDirectories p = .ok made)

include hp hclear hmake

/-- **What clearing the pool leaves**: its directory, which has been made, and what fills it. -/
theorem fills_stage : made.find p = .ok (t.leads p, .directory) ∧
    Fills (t.leads p) made (t.stage p).1 := by
  have hfind := (find_of_makeDirectories hp hmake).1
  rw [(SameOutside.removeBelow t (leads_ne_nil hp t)).leads_eq] at hfind
  refine ⟨hfind, ?_⟩
  simp only [stage, hclear, hmake]
  split
  · exact .refl _ _
  · next hwrite => exact .writeFile hfind isName_placeholderFile hwrite

/-- **A pool that has been made is cleared like the old one**, whatever fills it. -/
theorem stage_of_made (h : Fills (t.leads p) made u) : u.stage p = t.stage p := by
  have hroot := leads_ne_nil hp t
  have hleads : (t.removeBelow (t.leads p)).leads p = t.leads p :=
    (SameOutside.removeBelow t hroot).leads_eq p
  have hnone : (t.removeBelow (t.leads p)).at? (t.leads p) = none := by
    rw [t.at?_removeBelow hroot, if_pos List.prefix_rfl]
  have hfind := (fills_stage hp hclear hmake).1
  have hagain := makeDirectories_again hp (hleads.symm ▸ hnone) hmake
  rw [hleads] at hagain
  have hclearu : u.cleared p = .ok (made.removeBelow (t.leads p)) := by
    rw [cleared_of_find (h.find hfind) hroot, h.outside.removeBelow_eq hroot]
  unfold stage
  rw [hclear, hclearu]
  dsimp only
  rw [hmake, hagain]

end Made

/-- Where the pool cannot be made, clearing it leaves the tree without the old pool, and with the directories
that have been made for it. -/
theorem stage_of_make_error {bare : FileTree} {e : IoError} (hclear : t.cleared p = .ok bare)
    (hmake : bare.makeDirectories p = .error e) :
    t.stage p = (bare.leftByDirectories p, .error (.create p e)) := by
  simp only [stage, hclear, hmake]

/-- **A pool that has been cleared is found.** -/
theorem find_of_stage {staged : FileTree} {placeholder : FilePath} (hp : p.EndsInName) (ht : t.FindsEntry p)
    (h : t.stage p = (staged, .ok placeholder)) :
    staged.find p = .ok (t.leads p, .directory) := by
  rcases cleared_cases hp ht with hclear | ⟨-, e, -, -, hclear⟩
  · cases hmake : (t.removeBelow (t.leads p)).makeDirectories p with
    | error e => simp [stage_of_make_error hclear hmake] at h
    | ok made =>
      obtain ⟨hfind, hfills⟩ := fills_stage hp hclear hmake
      rw [h] at hfills
      exact hfills.find hfind
  · simp [stage_of_clear_error hclear] at h

/-- **Clearing the pool again gives the same**: in the tree that clearing it leaves, and in the tree that
results when a pool which has been cleared is filled. -/
theorem stage_of_fills (hp : p.EndsInName) (ht : t.Finds p)
    (hu : u = (t.stage p).1 ∨
      (∃ placeholder, (t.stage p).2 = .ok placeholder) ∧ Fills (t.leads p) (t.stage p).1 u) :
    u.stage p = t.stage p := by
  rcases cleared_cases hp ht.found with hclear | ⟨-, e, -, -, hclear⟩
  · cases hmake : (t.removeBelow (t.leads p)).makeDirectories p with
    | error e =>
      rw [stage_of_make_error hclear hmake, ht.left_eq _ e hclear hmake] at hu
      obtain rfl : u = t.removeBelow (t.leads p) := hu.resolve_right (by simp)
      have hroot := leads_ne_nil hp t
      have hsame := SameOutside.removeBelow t hroot
      refine stage_eq_of_sameOutside hp hsame ht.found (findsEntry_of_none ?_)
      rw [hsame.leads_eq, t.at?_removeBelow hroot, if_pos List.prefix_rfl]
    | ok made =>
      have hfills := (fills_stage hp hclear hmake).2
      refine stage_of_made hp hclear hmake ?_
      rcases hu with rfl | ⟨-, hu⟩
      · exact hfills
      · exact hfills.trans hu
  · rw [stage_of_clear_error hclear] at hu
    obtain rfl : u = t := hu.resolve_right (by simp)
    rfl

end FileTree

/-! ## Filling the pool -/

open FileTree

variable {t u : FileTree} {d : Place} {dir : FilePath}

/-- **Writing sources fills the pool.** -/
theorem fills_writeAll {sources : List (String × String)} (hfind : t.find dir = .ok (d, .directory))
    (hnames : ∀ source ∈ sources, IsName source.1) : Fills d t (writeAll dir t sources).1 := by
  induction sources generalizing t with
  | nil => exact .refl d t
  | cons source r ih =>
    obtain ⟨hname, hr⟩ := List.forall_mem_cons.1 hnames
    unfold writeAll
    dsimp only
    split
    · exact .refl d t
    · next u hu =>
      have hfills := Fills.writeFile hfind hname hu
      exact hfills.trans (ih (hfills.find hfind) hr)

/-- **So does the usual synthesizer**, for a program that has been loaded. -/
theorem fills_synthesizePool {s : FileTree} {roots : SourceRoots} {imports : ImportSet} {mode : LoadMode}
    {p : Program} (hload : Program.load s roots imports mode = .ok p) (pool poolName : String)
    (hfind : t.find dir = .ok (d, .directory)) :
    Fills d t (synthesizePool pool poolName t p dir).1 := by
  unfold synthesizePool
  split
  · exact .refl d t
  · next names sources hsources =>
    obtain ⟨models, hmodels, -, hfiles⟩ := poolSources_eq_ok hsources
    refine fills_writeAll hfind fun source hsource => ?_
    rcases hfiles source hsource with ⟨m, hm, hname⟩ | hname
    · rw [hname]
      exact isName_modelFile (Program.isWord_of_merge hload hmodels hm)
    · rw [hname]
      exact isName_registryFile

end ModelPool
