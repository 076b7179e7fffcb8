import ModelPool.Proofs.Files.Changing
import ModelPool.Proofs.Files.Spelling

/-!
# Proofs/Files/Trails — making directories along a trail

    path       a / b / .. / c
    trail      [a]  [a, b]  [a]  [a, c]

The pieces of a path lead from place to place along its trail.  All directories of the trail are made, also
those that the path only goes through and comes back from, unless a file stands in the way or a piece is too
long for a name.

* `Open.locate`, `locate_concat_of_not_open` — pieces are followed along an open trail only.
* `decides_makeChain` — when a chain of paths, each of which goes one piece further, is made.
* `addsAlong_leftByChain` — what is left where it cannot be made.
-/

namespace ModelPool

namespace FileTree

/-! ## Trails -/

/-- **The trail of pieces**: the places that they lead to, one after the other. -/
def trail (start : Place) : List String → List Place
  | [] => []
  | piece :: r => leadsTo start [piece] :: trail (leadsTo start [piece]) r

theorem trail_concat (start : Place) (ps : List String) (piece : String) :
    trail start (ps ++ [piece]) = trail start ps ++ [leadsTo start (ps ++ [piece])] := by
  induction ps generalizing start with
  | nil => rfl
  | cons first r ih =>
    simp only [List.cons_append, trail, ih, leadsTo_cons start first (r ++ [piece])]

/-- One piece leads below a place, or up by one name. -/
theorem dropLast_leadsTo (place : Place) (piece : String) :
    (leadsTo place [piece]).dropLast <+: place := by
  simp only [leadsTo]
  split
  · exact (List.dropLast_prefix _).trans (List.dropLast_prefix _)
  · exact List.dropLast_concat ▸ List.prefix_rfl
  · exact List.dropLast_prefix _

variable {t u : FileTree} {start : Place} {ps : List String} {piece : String}

/-- **A trail is open** if directories stand along it. -/
def Open (t : FileTree) (start : Place) (ps : List String) : Prop :=
  t.at? start = some .directory ∧ ∀ place ∈ trail start ps, t.at? place = some .directory

/-- A place that an open trail leads to is a directory. -/
theorem Open.last (h : t.Open start ps) : t.at? (leadsTo start ps) = some .directory := by
  rcases List.eq_nil_or_concat ps with rfl | ⟨qs, piece, rfl⟩
  · exact h.1
  · rw [List.concat_eq_append] at h ⊢
    exact h.2 _ (by rw [trail_concat]; exact List.mem_append_right _ List.mem_cons_self)

theorem open_cons : t.Open start (piece :: ps) ↔
    t.at? start = some .directory ∧ t.Open (leadsTo start [piece]) ps := by
  unfold Open
  rw [trail, List.forall_mem_cons]

/-- Pieces are followed along an open trail. -/
theorem Open.locate (h : t.Open start ps) : t.locate start ps = .ok (leadsTo start ps) := by
  induction ps generalizing start with
  | nil => rfl
  | cons first r ih =>
    have hr := (open_cons.1 h).2
    rw [t.locate_cons h.1, if_pos (t.fits_of_leadsTo hr.1), ih hr]
    exact congrArg _ (leadsTo_cons start first r).symm

/-- And one more piece leads to the place behind it, unless it is too long. -/
theorem Open.locate_concat (h : t.Open start ps) (piece : String) : t.locate start (ps ++ [piece]) =
    if fits piece then .ok (leadsTo start (ps ++ [piece])) else .error .nameTooLong := by
  rw [locate_append, h.locate]
  change t.locate _ [piece] = _
  rw [t.locate_cons h.last, leadsTo_append]
  rfl

/-- **What a trail fails on**: a file, or a piece that is too long. -/
inductive Fails (t : FileTree) (start : Place) (ps : List String) : IoError → Prop
  | file {place : Place} {bytes : ByteArray} (hplace : place ∈ start :: trail start ps)
    (hfile : t.at? place = some (.file bytes)) : Fails t start ps .notDirectory
  | long {piece : String} (hpiece : piece ∈ ps) (hlong : fits piece = false) : Fails t start ps .nameTooLong

theorem Fails.cons {e : IoError} (h : t.Fails (leadsTo start [piece]) ps e) : t.Fails start (piece :: ps) e := by
  cases h with
  | file hplace hfile => exact .file (List.mem_cons_of_mem _ hplace) hfile
  | long hpiece hlong => exact .long (List.mem_cons_of_mem _ hpiece) hlong

/-- **No piece is followed along another trail**: it fails on something, or where nothing stands. -/
theorem locate_concat_of_not_open (h : ¬ t.Open start ps) (piece : String) :
    ∃ e, t.locate start (ps ++ [piece]) = .error e ∧ (t.Fails start ps e ∨ e = .notFound) := by
  have hhere : ∀ {start ps}, t.at? start ≠ some .directory →
      ∃ e, t.locate start (ps ++ [piece]) = .error e ∧ (t.Fails start ps e ∨ e = .notFound) := by
    intro start ps hstart
    cases hat : t.at? start with
    | none => exact ⟨_, t.locate_of_none (by simp) hat, .inr rfl⟩
    | some e =>
      cases e with
      | file bytes => exact ⟨_, t.locate_of_file (by simp) hat, .inl (.file List.mem_cons_self hat)⟩
      | directory => exact absurd hat hstart
  induction ps generalizing start with
  | nil => exact hhere fun hstart => h ⟨hstart, fun _ hmem => absurd hmem List.not_mem_nil⟩
  | cons first r ih =>
    by_cases hstart : t.at? start = some .directory
    · rw [List.cons_append, t.locate_cons hstart]
      cases hfits : fits first with
      | false => exact ⟨_, rfl, .inl (.long List.mem_cons_self hfits)⟩
      | true =>
        obtain ⟨e, he, hfails⟩ := ih fun hr => h (open_cons.2 ⟨hstart, hr⟩)
        exact ⟨e, he, hfails.imp_left Fails.cons⟩
    · exact hhere hstart

/-! ## Paths that spell pieces -/

/-- **A path spells pieces**: in every tree seen from a place, it leads where they lead, and slashes at its
end only matter if it is no directory. -/
structure Spells (current : Place) (p : FilePath) (start : Place) (ps : List String) : Prop where
  place_eq : ∀ t : FileTree, t.current = current →
    t.place p.withoutEndSlashes = t.locate start ps
  isDirectory_iff : ∀ t : FileTree, t.current = current →
    (t.isDirectory p = true ↔ ∃ q, t.locate start ps = .ok q ∧ t.at? q = some .directory)

/-- **A chain of paths**, each of which goes one piece further than the next one. -/
inductive Chain (current start : Place) : List FilePath → List String → Prop
  | nil : Chain current start [] []
  | snoc {p : FilePath} {above : List FilePath} {ps : List String} {piece : String} :
    Chain current start above ps → Spells current p start (ps ++ [piece]) →
      Chain current start (p :: above) (ps ++ [piece])

/-- The paths above the first one are a chain. -/
theorem Chain.tail {current start : Place} {p : FilePath} {above : List FilePath} {ps : List String}
    {piece : String} (h : Chain current start (p :: above) (ps ++ [piece])) : Chain current start above ps := by
  generalize hpieces : ps ++ [piece] = pieces at h
  cases h with
  | snoc habove =>
    obtain ⟨rfl, -⟩ := List.append_inj' hpieces rfl
    exact habove

/-! ## Making directories -/

/-- **Directories can be made along a trail**, since it starts in one and fails on nothing. -/
structure CanMake (t : FileTree) (start : Place) (ps : List String) : Prop where
  base : ps ≠ [] → t.at? start = some .directory
  free : ∀ place ∈ trail start ps, ∀ bytes, t.at? place ≠ some (.file bytes)
  fits : ∀ piece ∈ ps, fits piece = true

/-- What a trail fails on keeps directories from being made. -/
theorem Fails.not_canMake {e : IoError} (h : t.Fails start ps e) (hstart : t.at? start = some .directory) :
    ¬ t.CanMake start ps := by
  intro hcan
  cases h with
  | file hplace hfile =>
    rcases List.mem_cons.1 hplace with rfl | hmem
    · exact absurd (hfile.symm.trans hstart) (by simp)
    · exact hcan.free _ hmem _ hfile
  | long hpiece hlong => exact absurd ((hcan.fits _ hpiece).symm.trans hlong) (by decide)

theorem canMake_concat : t.CanMake start (ps ++ [piece]) ↔ t.at? start = some .directory ∧
    t.CanMake start ps ∧ ModelPool.fits piece = true ∧
      ∀ bytes, t.at? (leadsTo start (ps ++ [piece])) ≠ some (.file bytes) := by
  constructor
  · rintro ⟨hstart, hfree, hfits⟩
    rw [trail_concat, List.forall_mem_append, List.forall_mem_singleton] at hfree
    rw [List.forall_mem_append, List.forall_mem_singleton] at hfits
    have hdir := hstart (by simp)
    exact ⟨hdir, ⟨fun _ => hdir, hfree.1, hfits.1⟩, hfits.2, hfree.2⟩
  · rintro ⟨hdir, hcan, hfits, hlast⟩
    refine ⟨fun _ => hdir, ?_, ?_⟩
    · rw [trail_concat, List.forall_mem_append, List.forall_mem_singleton]
      exact ⟨hcan.free, hlast⟩
    · rw [List.forall_mem_append, List.forall_mem_singleton]
      exact ⟨hcan.fits, hfits⟩

/-- The pieces of an open trail are not too long. -/
theorem Open.fits (h : t.Open start ps) : ∀ piece ∈ ps, ModelPool.fits piece = true := by
  induction ps generalizing start with
  | nil => exact List.forall_mem_nil _
  | cons first r ih =>
    have hr := (open_cons.1 h).2
    exact List.forall_mem_cons.2 ⟨t.fits_of_leadsTo hr.1, ih hr⟩

/-- So directories can be made along it, though they are there. -/
theorem Open.canMake (h : t.Open start ps) : t.CanMake start ps :=
  ⟨fun _ => h.1, fun place hmem bytes => by simp [h.2 place hmem], h.fits⟩

/-- **Directories have been made at some places**, and nothing else has changed. -/
structure Made (t : FileTree) (places : List Place) (u : FileTree) : Prop where
  current : u.current = t.current
  at?_eq : ∀ place, u.at? place = if place ∈ places then some .directory else t.at? place

theorem Made.trans {v : FileTree} {places places' : List Place} (h : Made t places u)
    (h' : Made u places' v) : Made t (places ++ places') v := by
  refine ⟨h'.current.trans h.current, fun place => ?_⟩
  rw [h'.at?_eq, h.at?_eq]
  by_cases hmem : place ∈ places'
  · rw [if_pos hmem, if_pos (List.mem_append_right _ hmem)]
  · rw [if_neg hmem]
    exact if_congr (by simp [hmem]) rfl rfl

/-- A trail that has been made from a directory is open. -/
theorem Made.open (h : Made t (trail start ps) u) (hstart : t.at? start = some .directory) :
    u.Open start ps := by
  refine ⟨?_, fun place hmem => by rw [h.at?_eq, if_pos hmem]⟩
  rw [h.at?_eq]
  split
  · rfl
  · exact hstart

/-- **A directory is made inside another one**, unless something stands there. -/
theorem makeDirectory_cases {p : FilePath} {q : Place} (hplace : t.place p.withoutEndSlashes = .ok q)
    (hparent : t.at? q.dropLast = some .directory) :
    (t.at? q = none ∧ ∃ u, t.makeDirectory p = .ok u ∧ Made t [q] u) ∨
      (t.at? q ≠ none ∧ t.makeDirectory p = .error .alreadyThere) := by
  unfold makeDirectory
  split
  · next e he => exact absurd (he.symm.trans hplace) (by simp)
  · next place hplace' =>
    obtain rfl := Except.ok.inj (hplace'.symm.trans hplace)
    have hcheck : t.checkParent place = .ok ⟨hparent⟩ := dif_pos hparent
    rw [hcheck]
    dsimp only [bind, Except.bind]
    split
    · next e he => exact .inr ⟨by simp [he], rfl⟩
    · next hnone =>
      have hne : place ≠ [] := by
        rintro rfl
        simp at hnone
      rw [dif_neg hne]
      exact .inl ⟨hnone, _, rfl, rfl, by simpa using t.at?_write hne _ hparent _⟩

theorem makeDirectory_of_error {p : FilePath} {e : IoError}
    (h : t.place p.withoutEndSlashes = .error e) : t.makeDirectory p = .error e := by
  unfold makeDirectory
  split
  · next e' he =>
    rw [h] at he
    rw [Except.error.inj he]
  · next hplace => exact absurd (h.symm.trans hplace) (by simp)

/-- Unless something is missing, a chain is made by its first path. -/
theorem makeChain_cons {p : FilePath} {above : List FilePath}
    (h : t.makeDirectory p ≠ .error .notFound) :
    t.makeChain (p :: above) = t.ensureDirectory p := by
  unfold makeChain ensureDirectory
  split
  · next hmake => rw [hmake]
  · next hmissing => exact absurd hmissing h
  · next hmake => rw [hmake]

section Spells

variable {p : FilePath} (hp : Spells t.current p start (ps ++ [piece]))

include hp

/-- **The end of an open trail is made**, unless something stands there. -/
theorem makeDirectory_of_open (hopen : t.Open start ps) (hfits : fits piece = true) :
    (t.at? (leadsTo start (ps ++ [piece])) = none ∧ ∃ u, t.makeDirectory p = .ok u ∧
      Made t [leadsTo start (ps ++ [piece])] u) ∨
    (t.at? (leadsTo start (ps ++ [piece])) ≠ none ∧
      t.makeDirectory p = .error .alreadyThere) := by
  have hlocate := hopen.locate_concat piece
  rw [if_pos hfits] at hlocate
  refine makeDirectory_cases ((hp.place_eq t rfl).trans hlocate) ?_
  rw [leadsTo_append]
  exact t.directory_above (dropLast_leadsTo _ _) hopen.last

/-- Where something is in the way, nothing is found either. -/
theorem ensureDirectory_of_error {e : IoError} (h : t.locate start (ps ++ [piece]) = .error e) :
    t.ensureDirectory p = .error e := by
  unfold ensureDirectory
  rw [makeDirectory_of_error ((hp.place_eq t rfl).trans h)]
  refine if_neg fun hdir => ?_
  obtain ⟨q, hq, -⟩ := (hp.isDirectory_iff t rfl).1 hdir
  exact absurd (h.symm.trans hq) (by simp)

/-- A directory at the end of an open trail will do; a file will not. -/
theorem decides_ensureDirectory (hopen : t.Open start ps) :
    Decides (t.ensureDirectory p)
      (fits piece = true ∧ ∀ bytes, t.at? (leadsTo start (ps ++ [piece])) ≠ some (.file bytes))
      (Made t [leadsTo start (ps ++ [piece])]) := by
  have hlocate := hopen.locate_concat piece
  by_cases hfits : fits piece = true
  · rw [if_pos hfits] at hlocate
    have hdirectory : t.isDirectory p = true ↔
        t.at? (leadsTo start (ps ++ [piece])) = some .directory := by
      rw [hp.isDirectory_iff t rfl, hlocate]
      simp
    unfold ensureDirectory
    rcases makeDirectory_of_open hp hopen hfits with ⟨hnone, u, hmake, hmade⟩ | ⟨hsome, hmake⟩
    · rw [hmake]
      exact ⟨⟨hfits, by simp [hnone]⟩, hmade⟩
    · rw [hmake]
      dsimp only
      split
      · next hdir =>
        have hat := hdirectory.1 hdir
        refine ⟨⟨hfits, by simp [hat]⟩, rfl, fun place => ?_⟩
        split
        · next hmem => rw [List.mem_singleton.1 hmem, hat]
        · rfl
      · next hdir =>
        rintro ⟨-, hfree⟩
        cases hat : t.at? (leadsTo start (ps ++ [piece])) with
        | none => exact hsome hat
        | some e =>
          cases e with
          | file bytes => exact hfree bytes hat
          | directory => exact hdir (hdirectory.2 hat)
  · rw [if_neg hfits] at hlocate
    rw [ensureDirectory_of_error hp hlocate]
    exact fun h => hfits h.1

/-- **One more directory is made behind a trail that is made.** -/
theorem decides_ensureDirectory_of_made {made : Except IoError FileTree}
    (h : Decides made (t.CanMake start ps) (Made t (trail start ps))) :
    Decides (made >>= fun u => u.ensureDirectory p) (t.CanMake start (ps ++ [piece]))
      (Made t (trail start (ps ++ [piece]))) := by
  by_cases hstart : t.at? start = some .directory
  · rw [trail_concat]
    have hsteps := h.with_condition.bind (Q := Made t (trail start ps ++ _))
      (d := fits piece = true ∧ ∀ bytes, t.at? (leadsTo start (ps ++ [piece])) ≠ some (.file bytes))
      (f := fun u => u.ensureDirectory p) fun u ⟨hcan, hmade⟩ => by
        have hpu : Spells u.current p start (ps ++ [piece]) := hmade.current ▸ hp
        refine ((decides_ensureDirectory hpu (hmade.open hstart)).congr (and_congr_right fun _ => ?_)).imp
          fun v hv => hmade.trans hv
        rw [hmade.at?_eq]
        split
        · next hmem => simp [hcan.free _ hmem]
        · rfl
    refine hsteps.congr ?_
    rw [canMake_concat]
    exact (and_iff_right hstart).symm
  · have hfalse : ¬ t.CanMake start (ps ++ [piece]) := fun hcan => hstart (canMake_concat.1 hcan).1
    cases made with
    | error e => exact hfalse
    | ok u =>
      obtain rfl : ps = [] := by_contra fun hne => hstart (h.1.base hne)
      have hustart : ¬ u.at? start = some .directory := by
        rw [h.2.at?_eq]
        simpa [trail] using hstart
      obtain ⟨e, he, -⟩ := @locate_concat_of_not_open u start [] (fun hopen => hustart hopen.1) piece
      have hpu : Spells u.current p start ([] ++ [piece]) := h.2.current ▸ hp
      change Decides (u.ensureDirectory p) _ _
      rw [ensureDirectory_of_error hpu he]
      exact hfalse

/-- Behind an open trail, the first path of a chain is all that is made. -/
theorem decides_makeChain_of_open (hopen : t.Open start ps) (above : List FilePath) :
    Decides (t.makeChain (p :: above)) (t.CanMake start (ps ++ [piece]))
      (Made t (trail start (ps ++ [piece]))) := by
  have hmake : t.makeDirectory p ≠ .error .notFound := by
    by_cases hfits : fits piece = true
    · rcases makeDirectory_of_open hp hopen hfits with ⟨-, u, hmake, -⟩ | ⟨-, hmake⟩ <;> simp [hmake]
    · have hlocate := hopen.locate_concat piece
      rw [if_neg hfits] at hlocate
      simp [makeDirectory_of_error ((hp.place_eq t rfl).trans hlocate)]
  have hall : Made t (trail start ps) t := ⟨rfl, fun place => by
    split
    · next hmem => exact hopen.2 place hmem
    · rfl⟩
  rw [makeChain_cons hmake, trail_concat]
  refine ((decides_ensureDirectory hp hopen).congr ?_).imp fun u hu => hall.trans hu
  rw [canMake_concat]
  exact ⟨fun hlast => ⟨hopen.1, hopen.canMake, hlast⟩, fun h => h.2.2⟩

end Spells

/-- **Directories are made along a trail exactly if they can be made.**  A chain is tried from its end, and
what is missing is made on the way back. -/
theorem decides_makeChain {paths : List FilePath} {current : Place}
    (h : Chain current start paths ps) (t : FileTree) (hcurrent : t.current = current) :
    Decides (t.makeChain paths) (t.CanMake start ps) (Made t (trail start ps)) := by
  induction h generalizing t with
  | nil => exact ⟨⟨fun hne => absurd rfl hne, by simp [trail], by simp⟩, rfl, by simp [trail]⟩
  | @snoc p above ps piece habove hp ih =>
    subst hcurrent
    by_cases hopen : t.Open start ps
    · exact decides_makeChain_of_open hp hopen above
    obtain ⟨e, hfail, hfails | rfl⟩ := locate_concat_of_not_open hopen piece
    · have hmake : t.makeDirectory p = .error e :=
        makeDirectory_of_error ((hp.place_eq t rfl).trans hfail)
      have hne : e ≠ .notFound := by cases hfails <;> simp
      rw [makeChain_cons (by simp [hmake, hne]), ensureDirectory_of_error hp hfail]
      intro h
      obtain ⟨hstart, hcan, -⟩ := canMake_concat.1 h
      exact hfails.not_canMake hstart hcan
    · have hmake : t.makeDirectory p = .error .notFound :=
        makeDirectory_of_error ((hp.place_eq t rfl).trans hfail)
      have hchain : t.makeChain (p :: above) =
          t.makeChain above >>= fun u => u.ensureDirectory p := by
        rw [makeChain, hmake]
      rw [hchain]
      exact decides_ensureDirectory_of_made hp (ih t rfl)

/-! ## What a failure leaves -/

/-- **Directories have been added at some of the places**, where nothing has stood, and nothing else has
changed. -/
structure AddsAlong (places : List Place) (t u : FileTree) : Prop where
  current : u.current = t.current
  at?_eq : ∀ place, u.at? place = t.at? place ∨
    t.at? place = none ∧ u.at? place = some .directory ∧ place ∈ places

theorem AddsAlong.refl (places : List Place) (t : FileTree) : AddsAlong places t t :=
  ⟨rfl, fun _ => .inl rfl⟩

theorem AddsAlong.mono {places more : List Place} (h : AddsAlong places t u) (hsub : places ⊆ more) :
    AddsAlong more t u :=
  ⟨h.current, fun place => (h.at?_eq place).imp_right fun ⟨hnone, hdir, hmem⟩ => ⟨hnone, hdir, hsub hmem⟩⟩

/-- Directories that have been made have been added, unless they have stood there. -/
theorem Made.addsAlong (h : Made t (trail start ps) u) (hcan : t.CanMake start ps) :
    AddsAlong (trail start ps) t u := by
  refine ⟨h.current, fun place => ?_⟩
  rw [h.at?_eq]
  split
  · next hmem =>
    cases hat : t.at? place with
    | none => exact .inr ⟨rfl, rfl, hmem⟩
    | some e =>
      cases e with
      | file bytes => exact absurd hat (hcan.free place hmem bytes)
      | directory => exact .inl rfl
  · exact .inl rfl

/-- **Where a chain cannot be made, directories of its trail are left.** -/
theorem addsAlong_leftByChain {paths : List FilePath} {current : Place}
    (h : Chain current start paths ps) (t : FileTree) (hcurrent : t.current = current) :
    AddsAlong (trail start ps) t (t.leftByChain paths) := by
  induction h with
  | nil => exact .refl _ t
  | @snoc p above ps piece habove hp ih =>
    unfold leftByChain
    split
    · rw [trail_concat]
      refine AddsAlong.mono ?_ (List.subset_append_left _ _)
      cases hmake : t.makeChain above with
      | error e => exact ih
      | ok u =>
        obtain ⟨hcan, hmade⟩ := (decides_makeChain habove t hcurrent).with_condition.of_eq_ok hmake
        exact hmade.addsAlong hcan
    · exact .refl _ t

/-- **Nothing is left where a chain starts in no directory.** -/
theorem leftByChain_eq_self {paths : List FilePath} {current : Place} (h : Chain current start paths ps)
    (hcurrent : t.current = current) (hstart : t.at? start ≠ some .directory) :
    t.leftByChain paths = t := by
  induction h with
  | nil => rfl
  | @snoc p above ps piece habove hp ih =>
    unfold leftByChain
    split
    · cases hmake : t.makeChain above with
      | error e => exact ih
      | ok u =>
        -- only the empty chain is made
        obtain ⟨hcan, hmade⟩ := (decides_makeChain habove t hcurrent).with_condition.of_eq_ok hmake
        obtain rfl : ps = [] := by_contra fun hne => hstart (hcan.base hne)
        exact ext_at? (t := u) hmade.current fun place => by simpa [trail] using hmade.at?_eq place
    · rfl

end FileTree

end ModelPool
