import ModelPool.Proofs.Files.Descent
import ModelPool.Proofs.Pool.Directory
import ModelPool.Proofs.Pool.Filling
import ModelPool.Proofs.Pool.Restaging

/-!
# Proofs/Pool/Clearing — what stands where after the pool has been cleared

    pool/x.rs       ──▸  pool/temp.rs
    y/pool, no y    ──▸  y/  y/pool/  y/pool/temp.rs
    a file y        ──▸  y

Outside the place of the pool, clearing it makes no more than directories that its path passes.  Inside, there
is the placeholder and nothing else, unless the path of the pool goes up: it may then miss the old pool, whose
entries remain, and it may pass the pool, where directories are made then.

* `keptOutside_stage` — outside the pool.
* `consists_of_stage`, `holdsOnly_of_stage` — inside the pool.
* `Consists.writeAll` — inside the pool, when it has been filled.
-/

namespace ModelPool

/-- The placeholder with its text. -/
def placeholderEntry (pool : FilePath) : String × String :=
  (placeholderFile, placeholderSource (poolName pool))

namespace FileTree

variable {t u v bare : FileTree} {d : Place} {places : List Place} {p : FilePath}

/-! ## Outside the pool -/

/-- **A tree is kept outside a place**: what stands elsewhere has not changed, but for directories that have
been made at some of the places. -/
structure KeptOutside (d : Place) (places : List Place) (t u : FileTree) : Prop where
  current : u.current = t.current
  at?_eq : ∀ place, ¬ d <+: place → u.at? place = t.at? place ∨
    t.at? place = none ∧ u.at? place = some .directory ∧ place ∈ places

theorem KeptOutside.refl (d : Place) (places : List Place) (t : FileTree) : KeptOutside d places t t :=
  ⟨rfl, fun _ _ => .inl rfl⟩

theorem SameOutside.keptOutside (h : SameOutside d t u) (places : List Place) : KeptOutside d places t u :=
  ⟨h.current, fun place hplace => .inl (h.at?_eq place hplace)⟩

theorem AddsAlong.keptOutside (h : AddsAlong places t u) (d : Place) : KeptOutside d places t u :=
  ⟨h.current, fun place _ => h.at?_eq place⟩

theorem KeptOutside.trans (h : KeptOutside d places t u) (h' : KeptOutside d places u v) :
    KeptOutside d places t v := by
  refine ⟨h'.current.trans h.current, fun place hplace => ?_⟩
  rcases h'.at?_eq place hplace with hsame' | ⟨hnone', hdir', hmem⟩
  · rw [hsame']
    exact h.at?_eq place hplace
  · rcases h.at?_eq place hplace with hsame | ⟨-, hdir, -⟩
    · exact .inr ⟨hsame.symm.trans hnone', hdir', hmem⟩
    · exact absurd (hdir.symm.trans hnone') (by simp)

/-- Removing the old pool changes nothing outside its place; nothing is removed where it is not found. -/
theorem sameOutside_of_cleared (h : t.cleared p = .ok bare) :
    SameOutside (t.leads p) t bare ∧ ∀ rest, bare.at? (t.leads p ++ rest) =
      if t.exists? p = true then none else t.at? (t.leads p ++ rest) := by
  unfold cleared at h
  unfold exists?
  split at h
  · next found hfind =>
    obtain ⟨place, e⟩ := found
    obtain rfl := t.eq_leads (t.find_eq_ok_iff.1 hfind).1
    simp only [remove, hfind, bind, Except.bind] at h
    split at h
    · simp at h
    · next hroot =>
      obtain rfl := Except.ok.inj h
      refine ⟨.removeBelow t hroot, fun rest => ?_⟩
      rw [t.at?_removeBelow hroot, if_pos (List.prefix_append _ _), hfind]
      rfl
  · next hfind =>
    obtain rfl := Except.ok.inj h
    refine ⟨⟨rfl, fun _ _ => rfl⟩, fun rest => ?_⟩
    rw [hfind]
    rfl
  · simp at h

/-- **Clearing the pool keeps the tree outside its place**, but for directories that its path passes. -/
theorem keptOutside_stage (hp : p.EndsInName) (t : FileTree) :
    KeptOutside (t.leads p) (t.passes p) t (t.stage p).1 := by
  cases hclear : t.cleared p with
  | error e =>
    rw [stage_of_clear_error hclear]
    exact .refl _ _ t
  | ok bare =>
    have hsame := (sameOutside_of_cleared hclear).1
    have hpasses : bare.passes p = t.passes p := by
      rw [passes, passes, base_congr hsame.current]
    refine (hsame.keptOutside _).trans ?_
    cases hmake : bare.makeDirectories p with
    | error e =>
      rw [stage_of_make_error hclear hmake, ← hpasses]
      exact (addsAlong_leftByDirectories hp bare).keptOutside _
    | ok made =>
      obtain ⟨hcan, hmade⟩ := (decides_makeDirectories hp bare).with_condition.of_eq_ok hmake
      have hadds : AddsAlong (t.passes p) bare made := hpasses ▸ hmade.addsAlong hcan
      refine (hadds.keptOutside _).trans ?_
      have hfind := (find_of_makeDirectories hp hmake).1
      rw [hsame.leads_eq] at hfind
      simp only [stage, hclear, hmake]
      split
      · exact .refl _ _ made
      · next hwrite =>
        exact (Fills.writeFile hfind isName_placeholderFile hwrite).outside.keptOutside _

/-! ## Inside the pool -/

/-- **A directory consists of sources and what remains**: below it stands a file for each of the sources, and
elsewhere what remains there. -/
structure Consists (t : FileTree) (d : Place) (sources : List (String × String))
    (remains : List String → Option Entry) : Prop extends Holds t d sources where
  other : ∀ rest, rest ≠ [] → (∀ source ∈ sources, rest ≠ [source.1]) → t.at? (d ++ rest) = remains rest

/-- **What remains below the place of a pool** that is cleared: directories that its path passes, and all that
has stood there if the path has not led to it. -/
def remains (t : FileTree) (p : FilePath) (rest : List String) : Option Entry :=
  if t.leads p ++ rest ∈ t.passes p then some .directory
  else if t.exists? p = true then none
  else t.at? (t.leads p ++ rest)

theorem stage_eq_ok {staged : FileTree} {placeholder : FilePath} (h : t.stage p = (staged, .ok placeholder)) :
    ∃ bare made, t.cleared p = .ok bare ∧ bare.makeDirectories p = .ok made ∧
      made.writeFile (p.child placeholderFile) (placeholderSource (poolName p)).toUTF8 = .ok staged := by
  unfold stage at h
  split at h
  · simp at h
  · next bare hbare =>
    split at h
    · simp at h
    · next made hmade =>
      dsimp only at h
      split at h
      · simp at h
      · next hwrite =>
        obtain rfl := (Prod.mk.inj h).1
        exact ⟨bare, made, hbare, hmade, hwrite⟩

/-- The path of the placeholder. -/
theorem placeholder_of_stage {staged : FileTree} {placeholder : FilePath}
    (h : t.stage p = (staged, .ok placeholder)) : placeholder = p.child placeholderFile := by
  obtain ⟨bare, made, hclear, hmake, hwrite⟩ := stage_eq_ok h
  simp only [stage, hclear, hmake, hwrite] at h
  exact (Except.ok.inj (Prod.mk.inj h).2).symm

section Staged

variable {staged : FileTree} {placeholder : FilePath} (hp : p.EndsInName)
  (h : t.stage p = (staged, .ok placeholder))

include hp h

/-- **What clearing the pool leaves**: a directory at its place that consists of the placeholder and of what
remains. -/
theorem consists_of_stage : staged.find p = .ok (t.leads p, .directory) ∧
    staged.Consists (t.leads p) [placeholderEntry p] (t.remains p) := by
  obtain ⟨bare, made, hclear, hmake, hwrite⟩ := stage_eq_ok h
  obtain ⟨hsame, hbelow⟩ := sameOutside_of_cleared hclear
  have hmade := (decides_makeDirectories hp bare).of_eq_ok hmake
  have hfind := (find_of_makeDirectories hp hmake).1
  rw [hsame.leads_eq] at hfind
  obtain ⟨place, hplace, hfile, hputs⟩ := puts_of_writeFile hwrite
  obtain rfl := made.eq_of_place_child hfind isName_placeholderFile hplace
  have hfound := hputs.find_directory hfile hfind
  refine ⟨hfound, ⟨(staged.find_eq_ok_iff.1 hfound).2, fun source hsource => ?_⟩, fun rest _ hrest => ?_⟩
  · rw [List.mem_singleton.1 hsource, hputs.at?_eq]
    exact if_pos rfl
  · have hne : t.leads p ++ rest ≠ t.leads p ++ [placeholderFile] := fun heq =>
      hrest _ List.mem_cons_self (List.append_cancel_left heq)
    rw [hputs.at?_eq, if_neg hne, hmade.at?_eq, hbelow, base_congr hsame.current]
    rfl

/-- **The placeholder is the only file there** if the old pool has been found. -/
theorem holdsOnly_of_stage (hfinds : t.FindsDirectory p) :
    staged.HoldsOnly (t.leads p) [placeholderEntry p] := by
  obtain ⟨-, hconsists⟩ := consists_of_stage hp h
  refine ⟨hconsists.toHolds, fun name bytes hat => ?_⟩
  by_contra hname
  have hremains : t.remains p [name] = some (.file bytes) := by
    rw [← hconsists.other [name] (by simp) ?_, hat]
    intro source hsource heq
    obtain ⟨rfl, -⟩ := List.cons.inj heq
    exact hname (List.mem_map_of_mem hsource)
  -- a file remains only if the path has not led to its directory
  unfold remains at hremains
  split at hremains
  · exact absurd hremains (by simp)
  · split at hremains
    · exact absurd hremains (by simp)
    · next hmissing => exact hmissing (by rw [exists?, hfinds (t.at?_parent hremains)]; rfl)

/-- **Nothing remains if the path of the pool does not go up.** -/
theorem remains_eq_none (hup : .up ∉ p.components) {rest : List String} (hrest : rest ≠ []) :
    t.remains p rest = none := by
  obtain ⟨bare, made, hclear, hmake, -⟩ := stage_eq_ok h
  have hsame := (sameOutside_of_cleared hclear).1
  have hleads := (find_of_makeDirectories hp hmake).2
  rw [base_congr hsame.current, hsame.leads_eq] at hleads
  have hpassed : t.leads p ++ rest ∉ t.passes p := by
    intro hmem
    have hlonger := (prefix_of_mem_trail (FilePath.up_not_mem_spelled hup) hmem).length_le
    rw [hleads, List.length_append] at hlonger
    exact hrest (List.length_eq_zero_iff.1 (by omega))
  unfold remains
  rw [if_neg hpassed]
  split
  · rfl
  · next hmissing =>
    -- what stands below the place stands in a directory, which the path would have led to
    cases hat : t.at? (t.leads p ++ rest) with
    | none => rfl
    | some e =>
      obtain ⟨init, last, rfl⟩ := (List.eq_nil_or_concat rest).resolve_left hrest
      rw [List.concat_eq_append, ← List.append_assoc] at hat
      have hdir := t.directory_above (List.prefix_append (t.leads p) init) (t.at?_parent hat)
      have hfind := t.findsDirectory_of_not_up hp.not_isEmpty (FilePath.up_not_mem_parts hup) hdir
      exact absurd (by rw [exists?, hfind]; rfl) hmissing

end Staged

end FileTree

/-! ## Filling the pool -/

open FileTree

section Filling

variable {t u : FileTree} {d : Place} {dir : FilePath} {held sources : List (String × String)}
  {remains : List String → Option Entry}

/-- Writing sources changes nothing but their places. -/
theorem at?_writeAll (hdir : t.find dir = .ok (d, .directory)) (hnames : ∀ source ∈ sources, IsName source.1)
    {place : Place} (hplace : ∀ source ∈ sources, place ≠ d ++ [source.1]) :
    (writeAll dir t sources).1.at? place = t.at? place := by
  induction sources generalizing t with
  | nil => rfl
  | cons source r ih =>
    obtain ⟨hname, hr⟩ := List.forall_mem_cons.1 hnames
    obtain ⟨hfirst, hrest⟩ := List.forall_mem_cons.1 hplace
    unfold writeAll
    dsimp only
    split
    · rfl
    · next v hv =>
      obtain ⟨q, hq, hfile, hputs⟩ := puts_of_writeFile hv
      obtain rfl := t.eq_of_place_child hdir hname hq
      rw [ih (hputs.find_directory hfile hdir) hr hrest, hputs.at?_eq, if_neg hfirst]

/-- **A directory consists of the sources that are written to it** as well. -/
theorem FileTree.Consists.writeAll {files : List FilePath} (hheld : t.Consists d held remains)
    (hdir : t.find dir = .ok (d, .directory)) (hnames : ∀ source ∈ sources, IsName source.1)
    (hnew : ((held ++ sources).map Prod.fst).Nodup) (h : writeAll dir t sources = (u, .ok files)) :
    u.Consists d (held ++ sources) remains := by
  obtain ⟨-, -, hholds, -⟩ := holds_writeAll hdir hnames hnew hheld.toHolds h
  refine ⟨hholds, fun rest hne hrest => ?_⟩
  obtain ⟨hheldRest, hrest⟩ := List.forall_mem_append.1 hrest
  have hplace : ∀ source ∈ sources, d ++ rest ≠ d ++ [source.1] := fun source hsource heq =>
    hrest source hsource (List.append_cancel_left heq)
  have hkept := at?_writeAll hdir hnames hplace
  rw [h] at hkept
  exact hkept.trans (hheld.other rest hne hheldRest)

/-- Sources that are not all written cannot all be written. -/
theorem isUnwritable_of_writeAll {e : SynthesisError} (h : (ModelPool.writeAll dir t sources).2 = .error e) :
    ∃ file cause, e = .unwritable file cause := by
  induction sources generalizing t with
  | nil =>
    rw [writeAll_nil] at h
    exact absurd h (by simp)
  | cons source r ih =>
    unfold ModelPool.writeAll at h
    dsimp only at h
    split at h
    · exact ⟨_, _, (Except.error.inj h).symm⟩
    · next v hv =>
      cases hrest : (ModelPool.writeAll dir v r).2 with
      | error e' =>
        rw [hrest] at h
        obtain rfl := Except.error.inj h
        exact ih hrest
      | ok files =>
        rw [hrest] at h
        exact absurd h (by simp [Except.map])

end Filling

end ModelPool
