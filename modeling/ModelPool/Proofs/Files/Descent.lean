import ModelPool.Proofs.Files.Directories

/-!
# Proofs/Files/Descent — paths that lead down only

    base     x     x/y     x/y/pool
      └────────▸─────▸────────┘        the way of  x/./y//pool

A path without a step up leads to a place below its base, along the places between the two.  So it depends on
what stands there alone whether something is found, and whether directories can be made.

* `leadsTo_spelled` — the steps of a path lead where its pieces lead.
* `locate_of_file_above`, `eq_notFound_of_locate` — only a file is in the way.
* `canMake_iff` — when directories can be made down to the place of a path.
* `leftByDirectories_eq_self` — what is left where the base is missing.
-/

namespace ModelPool

/-- **A path fits** if none of its names is too long for an entry. -/
def FilePath.Fits (p : FilePath) : Prop := ∀ name, .name name ∈ p.components → fits name = true

namespace FileTree

variable {t : FileTree} {start place : Place} {ps : List String} {p : FilePath}

/-! ## Steps and pieces -/

/-- Pieces that stand for no step lead nowhere. -/
theorem leadsTo_filter (start : Place) (ps : List String) :
    leadsTo start (ps.filter fun piece => (FilePath.step? piece).isSome) = leadsTo start ps := by
  induction ps generalizing start with
  | nil => rfl
  | cons piece r ih =>
    cases hstep : FilePath.step? piece with
    | none =>
      rw [List.filter_cons_of_neg (by simp [hstep]), ih, leadsTo, hstep]
    | some c =>
      rw [List.filter_cons_of_pos (by simp [hstep]), leadsTo, leadsTo, hstep]
      cases c <;> exact ih _

/-- **The steps of a path lead where its pieces lead.** -/
theorem leadsTo_spelled (start : Place) (p : FilePath) : leadsTo start p.spelled = leadsTo start p.parts := by
  obtain ⟨lead, hcomponents, hlead⟩ := p.exists_components_eq
  have hstay : leadsTo start (lead.map Component.piece) = start := by
    rcases hlead with rfl | rfl | rfl <;> rfl
  rw [FilePath.spelled, hcomponents, List.map_append, leadsTo_append, hstay,
    FilePath.map_piece_filterMap_step?, leadsTo_filter]

/-- A path that fits spells pieces that fit, and other paths do not. -/
theorem fits_spelled : (∀ piece ∈ p.spelled, fits piece = true) ↔ p.Fits := by
  have hfixed : fits Component.root.piece = true ∧ fits Component.here.piece = true ∧
      fits Component.up.piece = true := by decide
  constructor
  · exact fun h name hname => h name (List.mem_map_of_mem hname)
  · intro h piece hpiece
    obtain ⟨c, hc, rfl⟩ := List.mem_map.1 hpiece
    cases c with
    | root => exact hfixed.1
    | here => exact hfixed.2.1
    | up => exact hfixed.2.2
    | name s => exact h s hc

/-- And so do its parts. -/
theorem fits_of_mem_parts (h : p.Fits) : ∀ piece ∈ p.parts, fits piece = true := by
  intro piece hpiece
  by_cases hname : ∃ s, FilePath.step? piece = some (.name s)
  · obtain ⟨s, hstep⟩ := hname
    obtain rfl := FilePath.eq_of_step?_name hstep
    obtain ⟨lead, hcomponents, -⟩ := p.exists_components_eq
    refine h _ ?_
    rw [hcomponents]
    exact List.mem_append_right _ (List.mem_filterMap.2 ⟨_, hpiece, hstep⟩)
  · exact FilePath.fits_of_step? (not_exists.1 hname)

/-! ## Places on the way -/

/-- A path that does not go up passes no place below the one that it leads to. -/
theorem prefix_of_mem_trail (hup : ".." ∉ ps) (hplace : place ∈ trail start ps) :
    place <+: leadsTo start ps := by
  induction ps generalizing start with
  | nil => exact absurd hplace List.not_mem_nil
  | cons piece r ih =>
    obtain ⟨-, hr⟩ := not_or.1 (mt List.mem_cons.2 hup)
    rw [leadsTo_cons]
    rcases List.mem_cons.1 hplace with rfl | hplace
    · exact prefix_leadsTo hr
    · exact ih hr hplace

/-- **A place before the first one of the way is the start**, since one piece leads down by one name. -/
theorem eq_start_of_not_isPrefix {piece : String} (hup : ".." ∉ piece :: ps) (habove : start <+: place)
    (hplace : place <+: leadsTo start (piece :: ps)) (hbefore : ¬ leadsTo start [piece] <+: place) :
    place = start := by
  obtain ⟨hpiece, hr⟩ := not_or.1 (mt List.mem_cons.2 hup)
  have hfirst : leadsTo start [piece] <+: leadsTo start (piece :: ps) :=
    leadsTo_cons start piece ps ▸ prefix_leadsTo hr
  have hshorter : place <+: leadsTo start [piece] :=
    (List.prefix_or_prefix_of_prefix hplace hfirst).resolve_right hbefore
  have hlength : place.length < (leadsTo start [piece]).length := by
    refine lt_of_le_of_ne hshorter.length_le fun heq => hbefore ?_
    exact hshorter.eq_of_length heq ▸ List.prefix_rfl
  have hone : (leadsTo start [piece]).length ≤ start.length + 1 := by
    have hdrop := (dropLast_leadsTo start piece).length_le
    rw [List.length_dropLast] at hdrop
    omega
  exact (habove.eq_of_length (le_antisymm habove.length_le (by omega))).symm

/-- **The places of the way are the start and its trail.** -/
theorem eq_or_mem_trail (hup : ".." ∉ ps) (habove : start <+: place) (hplace : place <+: leadsTo start ps) :
    place = start ∨ place ∈ trail start ps := by
  induction ps generalizing start with
  | nil => exact .inl ((hplace.eq_of_length (le_antisymm hplace.length_le habove.length_le)))
  | cons piece r ih =>
    by_cases hbehind : leadsTo start [piece] <+: place
    · have hr := (not_or.1 (mt List.mem_cons.2 hup)).2
      rw [leadsTo_cons] at hplace
      refine .inr ?_
      rcases ih hr hbehind hplace with rfl | hmem
      · exact List.mem_cons_self
      · exact List.mem_cons_of_mem _ hmem
    · exact .inl (eq_start_of_not_isPrefix hup habove hplace hbehind)

/-! ## What is in the way -/

/-- Whatever stands somewhere stands below directories. -/
theorem directory_of_isPrefix {e : Entry} (h : t.at? place = some e) (habove : start <+: place)
    (hne : start ≠ place) : t.at? start = some .directory := by
  obtain ⟨rest, rfl⟩ := habove
  obtain ⟨init, last, rfl⟩ := (List.eq_nil_or_concat rest).resolve_left fun hnil => hne (by simp [hnil])
  rw [List.concat_eq_append, ← List.append_assoc] at h
  exact t.directory_above (List.prefix_append _ _) (t.at?_parent h)

/-- And so does something above it. -/
theorem exists_entry_above {e : Entry} (h : t.at? place = some e) (habove : start <+: place) :
    ∃ e, t.at? start = some e := by
  by_cases heq : start = place
  · exact ⟨e, heq ▸ h⟩
  · exact ⟨_, directory_of_isPrefix h habove heq⟩

/-- Pieces that lead down to where something stands are not too long. -/
theorem fits_of_leadsTo_down {e : Entry} (hup : ".." ∉ ps) (h : t.at? (leadsTo start ps) = some e) :
    ∀ piece ∈ ps, fits piece = true := by
  induction ps generalizing start with
  | nil => exact List.forall_mem_nil _
  | cons piece r ih =>
    obtain ⟨-, hr⟩ := not_or.1 (mt List.mem_cons.2 hup)
    rw [leadsTo_cons] at h
    obtain ⟨e', he'⟩ := exists_entry_above h (prefix_leadsTo hr)
    exact List.forall_mem_cons.2 ⟨t.fits_of_leadsTo he', ih hr h⟩

/-- **A file on the way is met**, unless the way ends at it. -/
theorem locate_of_file_above {bytes : ByteArray} (hup : ".." ∉ ps) (habove : start <+: place)
    (hplace : place <+: leadsTo start ps) (hfile : t.at? place = some (.file bytes)) :
    t.locate start ps = .error .notDirectory ∨
      place = leadsTo start ps ∧ t.locate start ps = .ok place := by
  induction ps generalizing start with
  | nil =>
    obtain rfl : place = start := hplace.eq_of_length (le_antisymm hplace.length_le habove.length_le)
    exact .inr ⟨rfl, rfl⟩
  | cons piece r ih =>
    by_cases hhere : start = place
    · exact .inl (t.locate_of_file (List.cons_ne_nil _ _) (hhere ▸ hfile))
    · have hbehind : leadsTo start [piece] <+: place :=
        by_contra fun hbefore => hhere (eq_start_of_not_isPrefix hup habove hplace hbefore).symm
      rw [leadsTo_cons] at hplace
      obtain ⟨e, he⟩ := exists_entry_above hfile hbehind
      rw [t.locate_cons (directory_of_isPrefix hfile habove hhere), if_pos (t.fits_of_leadsTo he),
        leadsTo_cons start piece r]
      exact ih (not_or.1 (mt List.mem_cons.2 hup)).2 hbehind hplace

/-- **Where no file is on the way, a place is only missed because it is missing**, or a piece is too long. -/
theorem eq_notFound_of_locate {e : IoError} (hup : ".." ∉ ps) (hfits : ∀ piece ∈ ps, fits piece = true)
    (hfree : ∀ place bytes, start <+: place → place <+: leadsTo start ps →
      t.at? place ≠ some (.file bytes)) (h : t.locate start ps = .error e) : e = .notFound := by
  induction ps generalizing start with
  | nil => exact absurd h (by simp [locate])
  | cons piece r ih =>
    obtain ⟨hpiece, hr⟩ := not_or.1 (mt List.mem_cons.2 hup)
    obtain ⟨hfirst, hrest⟩ := List.forall_mem_cons.1 hfits
    cases hat : t.at? start with
    | none => exact (Except.error.inj (h.symm.trans (t.locate_of_none (List.cons_ne_nil _ _) hat)))
    | some entry =>
      cases entry with
      | file bytes => exact absurd hat (hfree start bytes List.prefix_rfl (prefix_leadsTo hup))
      | directory =>
        rw [t.locate_cons hat, if_pos hfirst] at h
        have hdown : start <+: leadsTo start [piece] :=
          prefix_leadsTo (by simpa using hpiece)
        exact ih hr hrest (fun place bytes habove hplace =>
          hfree place bytes (hdown.trans habove) (leadsTo_cons start piece r ▸ hplace)) h

/-! ## Making directories -/

section Making

variable (hp : p.EndsInName) (hup : .up ∉ p.components)

include hp

/-- A path that ends in a name leads there from another place. -/
theorem exists_leads_eq : ∃ ps name, t.leads p = leadsTo (t.base p) ps ++ [name] ∧
    ∀ piece ∈ ps, piece ∈ p.parts := by
  obtain ⟨ps, name, n, hname, hparts⟩ := hp.exists_parts
  refine ⟨ps, name, ?_, fun piece hpiece => by simp [hparts, hpiece]⟩
  rw [leads, hparts, leadsTo_append, leadsTo_replicate, leadsTo_append]
  simp [leadsTo, FilePath.step?_name hname]

include hup

/-- And so its base is another place. -/
theorem not_leads_prefix_base : ¬ t.leads p <+: t.base p := by
  obtain ⟨ps, name, hleads, hsub⟩ := exists_leads_eq (t := t) hp
  intro hbelow
  have hdown : t.base p <+: leadsTo (t.base p) ps :=
    prefix_leadsTo fun hmem => FilePath.up_not_mem_parts hup (hsub _ hmem)
  have hlonger := hdown.length_le.trans_lt (by simp [hleads] : _ < (t.leads p).length)
  exact absurd hbelow.length_le (Nat.not_le_of_lt hlonger)

/-- **Directories can be made down to a place** exactly if the base is a directory, no file is on the way, and
no name is too long. -/
theorem canMake_iff : t.CanMake (t.base p) p.spelled ↔ t.at? (t.base p) = some .directory ∧ p.Fits ∧
    ∀ place bytes, place <+: t.leads p → t.at? place ≠ some (.file bytes) := by
  have hne : p.spelled ≠ [] := mt List.map_eq_nil_iff.1 hp.components_ne_nil
  have hspelled := FilePath.up_not_mem_spelled hup
  have hleads : leadsTo (t.base p) p.spelled = t.leads p := leadsTo_spelled _ p
  constructor
  · rintro ⟨hbase, hfree, hfits⟩
    refine ⟨hbase hne, fits_spelled.1 hfits, fun place bytes hplace hfile => ?_⟩
    have hdown : t.base p <+: t.leads p := prefix_leadsTo (FilePath.up_not_mem_parts hup)
    rcases List.prefix_or_prefix_of_prefix hdown hplace with habove | habove
    · rcases eq_or_mem_trail hspelled habove (hleads ▸ hplace) with rfl | hmem
      · exact absurd (hfile.symm.trans (hbase hne)) (by simp)
      · exact hfree place hmem bytes hfile
    · exact absurd (hfile.symm.trans (t.directory_above habove (hbase hne))) (by simp)
  · rintro ⟨hbase, hfits, hfree⟩
    exact ⟨fun _ => hbase, fun place hmem bytes =>
      hfree place bytes (hleads ▸ prefix_of_mem_trail hspelled hmem), fits_spelled.2 hfits⟩

end Making

/-- **Nothing is made where the base is missing.** -/
theorem leftByDirectories_eq_self (hp : p.EndsInName) (hbase : t.at? (t.base p) ≠ some .directory) :
    t.leftByDirectories p = t :=
  leftByChain_eq_self (chain_self hp t) rfl hbase

end FileTree

end ModelPool
