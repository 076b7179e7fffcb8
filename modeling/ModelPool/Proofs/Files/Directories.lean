import ModelPool.Proofs.Files.Trails

/-!
# Proofs/Files/Directories — making a directory with all that contains it

The paths above a path that ends in a name are a chain, so the directories of its trail are made if they can
be.  What then stands at the place of the path may be removed and made again.

* `decides_makeDirectories` — when a directory is made with all that contains it.
* `makeDirectories_again` — what has been removed is made again.
-/

namespace ModelPool

namespace FileTree

variable {t u : FileTree} {start : Place} {ps : List String}

/-! ## The chain above a path -/

/-- Empty pieces behind a directory do not matter. -/
theorem locate_append_empties (t : FileTree) {start q : Place} {ps : List String} (n : Nat)
    (hq : t.at? q = some .directory) :
    t.locate start (ps ++ List.replicate n "") = .ok q ↔ t.locate start ps = .ok q := by
  induction n with
  | zero => simp
  | succ n ih =>
    rw [List.replicate_succ', ← List.append_assoc, locate_append_iff, ← ih]
    simp only [locate_empty]
    exact ⟨fun ⟨d, hd, _, hqd⟩ => hqd ▸ hd, fun h => ⟨q, h, hq, rfl⟩⟩

/-- **A path spells the pieces that lead where it leads** without the slashes at its end. -/
theorem Spells.of_locate {current : Place} {p : FilePath}
    (hne : ¬ p.withoutEndSlashes.text.isEmpty = true)
    (hstart : (if p.isAbsolute then [] else current) = start)
    (h : ∀ t : FileTree, t.locate start p.withoutEndSlashes.parts = t.locate start ps) :
    Spells current p start ps := by
  have hbase : ∀ t : FileTree, t.current = current → t.base p = start := by
    rintro t rfl
    exact hstart
  have hbare : ∀ t : FileTree, t.base p.withoutEndSlashes = t.base p := fun t => by
    unfold base
    rw [p.isAbsolute_withoutEndSlashes]
  refine ⟨fun t ht => ?_, fun t ht => ?_⟩
  · rw [t.place_eq_locate hne, hbare, hbase t ht, h]
  · obtain ⟨n, hn⟩ := p.exists_parts_withoutEndSlashes
    have htext : ¬ p.text.isEmpty = true := by
      obtain ⟨m, hm⟩ := p.exists_text_withoutEndSlashes
      intro hempty
      rw [String.isEmpty_iff] at hne hempty
      rw [hempty] at hm
      simp_all
    rw [FileTree.isDirectory_iff]
    refine exists_congr fun q => ?_
    rw [find_eq_ok_iff, t.place_eq_locate htext, hbase t ht, hn]
    refine and_congr_left fun hq => ?_
    rw [t.locate_append_empties n hq, h]

/-- The path of steps that end inside it has no slash at its end. -/
theorem withoutEndSlashes_of_map_piece {p : FilePath} {lead : List String} {cs : List Component}
    (hne : cs ≠ []) (hcs : ∀ c ∈ cs, c.IsInner)
    (hparts : p.parts = lead ++ cs.map Component.piece) : p.withoutEndSlashes = p := by
  obtain ⟨init, last, rfl⟩ := (List.eq_nil_or_concat cs).resolve_left hne
  rw [List.concat_eq_append] at hparts hcs
  have hlast := hcs last (List.mem_append_right _ List.mem_cons_self)
  rw [List.map_append, ← List.append_assoc] at hparts
  exact FilePath.withoutEndSlashes_eq_self hparts (hlast.piece_eq ▸ hlast.ne_empty)

theorem not_isEmpty_of_parts {p : FilePath} {c : Component} (hc : c.IsInner)
    (h : c.piece ∈ p.parts) : ¬ p.text.isEmpty = true := by
  intro hempty
  rw [String.isEmpty_iff] at hempty
  have hpiece : c.piece = "" := by simpa [FilePath.parts, hempty, pieces] using h
  exact hc.ne_empty (hc.piece_eq ▸ hpiece)

/-- **Steps inside a path spell their pieces**, from where the tree is seen. -/
theorem spells_ofComponents {cs : List Component} (hne : cs ≠ []) (hcs : ∀ c ∈ cs, c.IsInner)
    (current : Place) :
    Spells current (.ofComponents cs) current (cs.map Component.piece) := by
  have hparts := FilePath.parts_ofComponents hne hcs
  have hbare := @withoutEndSlashes_of_map_piece _ [] _ hne hcs hparts
  cases cs with
  | nil => exact absurd rfl hne
  | cons c r =>
    have hc := hcs c List.mem_cons_self
    have hrelative : ¬ (FilePath.ofComponents (c :: r)).isAbsolute = true := by
      rw [FilePath.isAbsolute_iff, hparts]
      rintro ⟨qs, -, hqs⟩
      exact hc.ne_empty (hc.piece_eq ▸ (List.cons.inj hqs).1)
    refine .of_locate ?_ (if_neg hrelative) fun t => by rw [hbare, hparts]
    rw [hbare]
    exact not_isEmpty_of_parts hc (by simp [hparts])

/-- And behind a root, they do so from the root. -/
theorem spells_ofComponents_root {cs : List Component} (hcs : ∀ c ∈ cs, c.IsInner)
    (current : Place) :
    Spells current (.ofComponents (.root :: cs)) [] ((Component.root :: cs).map Component.piece) := by
  by_cases hne : cs = []
  · subst hne
    have htext : FilePath.ofComponents [.root] = ⟨"/"⟩ := by decide
    rw [htext]
    refine .of_locate (by decide) (if_pos (by decide)) fun t => ?_
    have hparts : (FilePath.mk "/").withoutEndSlashes.parts = ["", ""] := by decide
    rw [hparts, t.locate_cons t.at?_root]
    rfl
  · have hparts := FilePath.parts_ofComponents_root hne hcs
    have hbare := @withoutEndSlashes_of_map_piece _ [""] cs hne hcs hparts
    obtain ⟨c, hc⟩ := List.exists_mem_of_ne_nil cs hne
    have habsolute : (FilePath.ofComponents (.root :: cs)).isAbsolute = true :=
      FilePath.isAbsolute_iff.2 ⟨_, mt List.map_eq_nil_iff.1 hne, hparts⟩
    refine .of_locate ?_ (if_pos habsolute) fun t => by rw [hbare, hparts]
    rw [hbare]
    refine not_isEmpty_of_parts (hcs c hc) ?_
    rw [hparts]
    exact List.mem_map_of_mem (List.mem_cons_of_mem _ hc)

variable {p : FilePath}

/-- The first steps of a path spell their pieces. -/
theorem spells_take (hne : p.components ≠ []) {n : Nat} (hn : 0 < n) (t : FileTree) :
    Spells t.current (.ofComponents (p.components.take n)) (t.base p)
      ((p.components.take n).map Component.piece) := by
  obtain ⟨m, rfl⟩ := Nat.exists_eq_add_of_lt hn
  rcases p.components_cases with ⟨habsolute, cs, hcs, hinner⟩ | ⟨hrelative, hinner⟩
  · rw [base, if_pos habsolute, hcs, Nat.zero_add, List.take_succ_cons]
    exact spells_ofComponents_root (fun c hc => hinner c (List.take_subset _ _ hc)) _
  · rw [base, if_neg (by simp [hrelative])]
    refine spells_ofComponents ?_ (fun c hc => hinner c (List.take_subset _ _ hc)) _
    simpa using hne

/-- **The paths above a path are a chain.** -/
theorem chain_take (hne : p.components ≠ []) (t : FileTree) {n : Nat} (hn : n ≤ p.components.length) :
    Chain t.current (t.base p)
      ((List.range (n + 1)).reverse.filterMap fun m =>
        if m = 0 then none else some (.ofComponents (p.components.take m)))
      ((p.components.take n).map Component.piece) := by
  induction n with
  | zero => exact .nil
  | succ n ih =>
    have hspells := spells_take hne (Nat.succ_pos n) t
    rw [List.range_succ, List.reverse_append, List.reverse_singleton, List.singleton_append,
      List.filterMap_cons, if_neg (Nat.succ_ne_zero n)]
    rw [List.take_succ_eq_append_getElem hn, List.map_append] at hspells ⊢
    exact .snoc (ih (Nat.le_of_succ_le hn)) hspells

/-! ## Making a path that ends in a name -/

/-- A path that ends in a name spells its steps. -/
theorem spells_self (hp : p.EndsInName) (t : FileTree) :
    Spells t.current p (t.base p) p.spelled := by
  obtain ⟨ps, name, hparts, hname⟩ := hp
  refine .of_locate ?_ rfl fun u => u.locate_spelled hname hparts
  intro hempty
  rw [String.isEmpty_iff] at hempty
  have hpiece : name ∈ p.withoutEndSlashes.parts := by simp [hparts]
  refine hname.ne_empty ?_
  simpa [FilePath.parts, hempty, pieces] using hpiece

/-- **A path that ends in a name and the paths above it are a chain** that spells its steps. -/
theorem chain_self (hp : p.EndsInName) (t : FileTree) :
    Chain t.current (t.base p) (p :: p.above) p.spelled := by
  have hne := hp.components_ne_nil
  obtain ⟨n, hn⟩ := Nat.exists_eq_succ_of_ne_zero (mt List.length_eq_zero_iff.1 hne)
  have hlast : n < p.components.length := hn ▸ Nat.lt_succ_self n
  have habove : Chain t.current (t.base p) p.above ((p.components.take n).map Component.piece) := by
    rw [FilePath.above, hn]
    exact chain_take hne t (Nat.le_of_lt hlast)
  have hspelled : p.spelled =
      (p.components.take n).map Component.piece ++ [p.components[n].piece] := by
    have hall : p.components.take (n + 1) = p.components := List.take_of_length_le (Nat.le_of_eq hn)
    rw [FilePath.spelled, ← List.map_singleton, ← List.map_append,
      ← List.take_succ_eq_append_getElem hlast, hall]
  have hself := spells_self hp t
  rw [hspelled] at hself ⊢
  exact .snoc habove hself

/-- **A directory is made with all that contains it exactly if it can be made along the path.** -/
theorem decides_makeDirectories (hp : p.EndsInName) (t : FileTree) :
    Decides (t.makeDirectories p) (t.CanMake (t.base p) p.spelled)
      (Made t (trail (t.base p) p.spelled)) := by
  rw [makeDirectories, if_neg hp.not_isEmpty]
  exact decides_makeChain (chain_self hp t) t rfl

/-- **The places that a path passes** on its way to where it leads. -/
def passes (t : FileTree) (p : FilePath) : List Place := trail (t.base p) p.spelled

/-- Where a directory cannot be made, directories that its path passes are left. -/
theorem addsAlong_leftByDirectories (hp : p.EndsInName) (t : FileTree) :
    AddsAlong (t.passes p) t (t.leftByDirectories p) :=
  addsAlong_leftByChain (chain_self hp t) t rfl

/-- Empty pieces lead nowhere. -/
theorem leadsTo_replicate (place : Place) (n : Nat) : leadsTo place (List.replicate n "") = place := by
  induction n with
  | zero => rfl
  | succ n ih => exact ih

/-- Nor do the slashes at the end of a path. -/
theorem leads_withoutEndSlashes (t : FileTree) (p : FilePath) :
    t.leads p.withoutEndSlashes = t.leads p := by
  obtain ⟨n, hn⟩ := p.exists_parts_withoutEndSlashes
  rw [leads, leads, base, base, p.isAbsolute_withoutEndSlashes, hn, leadsTo_append, leadsTo_replicate]

/-- What has been made is found, and the steps of its path lead there. -/
theorem find_of_makeDirectories (hp : p.EndsInName) (h : t.makeDirectories p = .ok u) :
    u.find p = .ok (t.leads p, .directory) ∧ leadsTo (t.base p) p.spelled = t.leads p := by
  have hmade := (decides_makeDirectories hp t).with_condition.of_eq_ok h
  have hne : p.spelled ≠ [] := mt List.map_eq_nil_iff.1 hp.components_ne_nil
  have hopen : u.Open (t.base p) p.spelled := hmade.2.open (hmade.1.base hne)
  have hself : Spells u.current p (t.base p) p.spelled := hmade.2.current ▸ spells_self hp t
  obtain ⟨q, hq⟩ :=
    isDirectory_iff.1 ((hself.isDirectory_iff u rfl).2 ⟨_, hopen.locate, hopen.last⟩)
  have hleads : u.leads p = t.leads p := by
    unfold leads base
    rw [hmade.2.current]
  refine ⟨by rw [hq, u.eq_leads (u.find_eq_ok_iff.1 hq).1, hleads], ?_⟩
  rw [← hleads, ← leads_withoutEndSlashes]
  exact u.eq_leads ((hself.place_eq u rfl).trans hopen.locate)

/-- Nothing stands below where nothing stands. -/
theorem at?_below {d place : Place} (h : t.at? d = none) (hbelow : d <+: place) :
    t.at? place = none := by
  obtain ⟨rest, rfl⟩ := hbelow
  induction rest using List.reverseRecOn with
  | nil => simpa using h
  | append_singleton rest name ih =>
    cases hat : t.at? (d ++ (rest ++ [name])) with
    | none => rfl
    | some e =>
      rw [← List.append_assoc] at hat
      exact absurd (ih.symm.trans (t.at?_parent hat)) (by simp)

section Again

variable {v : FileTree} {d : Place} {places : List Place} (hd : d ≠ [])
include hd

/-- What has been made can be made again when it is removed. -/
theorem Made.canMake_removeBelow (h : Made t (trail start ps) u)
    (hstart : t.at? start = some .directory) (houtside : ¬ d <+: start) :
    (u.removeBelow d).CanMake start ps := by
  refine ⟨fun _ => ?_, fun place hplace bytes => ?_, (h.open hstart).fits⟩
  · rw [u.at?_removeBelow hd, if_neg houtside, h.at?_eq, hstart]
    simp
  · rw [u.at?_removeBelow hd, h.at?_eq, if_pos hplace]
    split <;> simp

/-- And it is the same again, if nothing stood there at first. -/
theorem Made.eq_of_removeBelow (hnone : t.at? d = none) (h : Made t places u)
    (h' : Made (u.removeBelow d) places v) : v = u := by
  refine ext_at? h'.current fun place => ?_
  rw [h'.at?_eq, u.at?_removeBelow hd, h.at?_eq]
  split
  · rfl
  · split
    · next hbelow => rw [at?_below hnone hbelow]
    · rfl

end Again

/-- **What has been made and removed is made again.** -/
theorem makeDirectories_again (hp : p.EndsInName) (hnone : t.at? (t.leads p) = none)
    (h : t.makeDirectories p = .ok u) :
    (u.removeBelow (t.leads p)).makeDirectories p = .ok u := by
  have hmade := (decides_makeDirectories hp t).with_condition.of_eq_ok h
  have hroot : t.leads p ≠ [] := by
    intro hnil
    simp [hnil] at hnone
  have hstart : t.at? (t.base p) = some .directory :=
    hmade.1.base (mt List.map_eq_nil_iff.1 hp.components_ne_nil)
  have houtside : ¬ t.leads p <+: t.base p := fun hbelow =>
    absurd ((at?_below hnone hbelow).symm.trans hstart) (by simp)
  have hagain := decides_makeDirectories hp (u.removeBelow (t.leads p))
  have hbase : (u.removeBelow (t.leads p)).base p = t.base p := by
    change (if _ then _ else u.current) = _
    rw [hmade.2.current]
    rfl
  rw [hbase] at hagain
  obtain ⟨v, hv⟩ := hagain.exists_iff.2 (hmade.2.canMake_removeBelow hroot hstart houtside)
  rw [hv, hmade.2.eq_of_removeBelow hroot hnone (hagain.of_eq_ok hv)]

end FileTree

end ModelPool
