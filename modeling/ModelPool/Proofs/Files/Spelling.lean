import Mathlib.Data.List.TakeWhile
import ModelPool.Proofs.Files.Paths

/-!
# Proofs/Files/Spelling — the pieces that a path's steps are spelled with

    //a/./../b//        text
    root a up b         components
    ""   a ..  b        spelled

Of the pieces of a path, those that stand for no step are left out when its steps are spelled.  They matter
at the end of a path only, and a slash there goes when a directory is made.

* `exists_parts_withoutEndSlashes` — the slashes at the end of a path are empty pieces at its end.
* `parts_ofComponents` — the path of some steps has the pieces that spell them.
* `FileTree.locate_spelled` — the pieces that spell a path lead where the path leads.
-/

namespace ModelPool

/-- The piece that spells a step; nothing stands before the slash of a root. -/
def Component.piece : Component → String
  | root => ""
  | c => c.text

/-- **A step inside a path**: it is no root, and its text is a piece. -/
structure Component.IsInner (c : Component) : Prop where
  piece_eq : c.piece = c.text
  ne_empty : c.text ≠ ""
  no_slash : '/' ∉ c.text.toList

namespace FilePath

/-- **The pieces that spell the steps of a path.** -/
def spelled (p : FilePath) : List String := p.components.map Component.piece

/-! ## Slashes at the end -/

theorem exists_text_withoutEndSlashes (p : FilePath) :
    ∃ n, p.text.toList = p.withoutEndSlashes.text.toList ++ List.replicate n '/' := by
  have hslashes : ∀ cs : List Char, ∃ n,
      cs.reverse = (cs.dropWhile (· == '/')).reverse ++ List.replicate n '/' := by
    intro cs
    induction cs with
    | nil => exact ⟨0, rfl⟩
    | cons c r ih =>
      by_cases hc : c = '/'
      · obtain ⟨n, hn⟩ := ih
        refine ⟨n + 1, ?_⟩
        rw [List.reverse_cons, List.dropWhile_cons_of_pos (by simpa using hc), hn, hc,
          List.replicate_succ', List.append_assoc]
      · exact ⟨0, by rw [List.dropWhile_cons_of_neg (by simpa using hc)]; simp⟩
  obtain ⟨n, hn⟩ := hslashes p.text.toList.reverse
  rw [List.reverse_reverse] at hn
  unfold withoutEndSlashes
  split
  · next hdrop =>
    rw [hdrop] at hn
    split
    · next habsolute =>
      cases n with
      | zero => simp [isAbsolute, hn] at habsolute
      | succ n => exact ⟨n, hn⟩
    · exact ⟨0, by simp⟩
  · next cs _ => exact ⟨n, hn.trans (by rw [String.toList_ofList])⟩

/-- **The slashes at the end of a path are empty pieces at its end.** -/
theorem exists_parts_withoutEndSlashes (p : FilePath) :
    ∃ n, p.parts = p.withoutEndSlashes.parts ++ List.replicate n "" := by
  have hpieces : ∀ (cs : List Char) (n : Nat),
      pieces (cs ++ List.replicate n '/') = pieces cs ++ List.replicate n [] := by
    intro cs n
    induction n with
    | zero => simp
    | succ n ih =>
      rw [List.replicate_succ', ← List.append_assoc, pieces_append_slash, ih, List.append_assoc,
        List.replicate_succ' (a := ([] : List Char))]
      rfl
  obtain ⟨n, hn⟩ := p.exists_text_withoutEndSlashes
  exact ⟨n, by rw [parts, hn, hpieces, List.map_append, List.map_replicate]; rfl⟩

theorem withoutEndSlashes_of_getLast? {p : FilePath} (h : p.text.toList.getLast? ≠ some '/') :
    p.withoutEndSlashes = p := by
  obtain ⟨n, hn⟩ := p.exists_text_withoutEndSlashes
  cases n with
  | zero =>
    have htext : p.text = p.withoutEndSlashes.text := by
      rw [← String.toList_inj, hn]
      simp
    cases hw : p.withoutEndSlashes
    cases p
    simp_all
  | succ n =>
    rw [List.replicate_succ', ← List.append_assoc] at hn
    rw [hn, List.getLast?_concat] at h
    exact absurd rfl h

/-- A path whose last piece is not empty has no slash at its end. -/
theorem withoutEndSlashes_eq_self {p : FilePath} {ps : List String} {piece : String}
    (hparts : p.parts = ps ++ [piece]) (hne : piece ≠ "") : p.withoutEndSlashes = p := by
  refine withoutEndSlashes_of_getLast? fun hlast => ?_
  obtain ⟨cs, hcs⟩ := List.getLast?_eq_some_iff.1 hlast
  have hslash : p.parts = (pieces cs).map String.ofList ++ [""] := by
    rw [parts, hcs, pieces_append_slash, List.map_append]
    rfl
  exact absurd (List.append_inj_right' (hparts.symm.trans hslash) rfl) (by simpa using hne)

/-- A text that does not end in a slash ends in a piece. -/
theorem exists_pieces_concat {c : Char} (hc : c ≠ '/') (cs : List Char) :
    ∃ ps p, pieces (cs ++ [c]) = ps ++ [p ++ [c]] := by
  induction cs with
  | nil => exact ⟨[], [], by simp [pieces, hc]⟩
  | cons d r ih =>
    obtain ⟨ps, p, hps⟩ := ih
    rw [List.cons_append, pieces, hps]
    split
    · exact ⟨[] :: ps, p, rfl⟩
    · cases ps with
      | nil => exact ⟨[], d :: p, rfl⟩
      | cons q qs => exact ⟨(d :: q) :: qs, p, rfl⟩

/-- And one of slashes has empty pieces only. -/
theorem eq_nil_of_mem_pieces {cs p : List Char} (h : ∀ c ∈ cs, c = '/') (hp : p ∈ pieces cs) :
    p = [] := by
  induction cs with
  | nil => simpa [pieces] using hp
  | cons c r ih =>
    obtain ⟨hc, hr⟩ := List.forall_mem_cons.1 h
    rw [pieces, if_pos hc] at hp
    exact (List.mem_cons.1 hp).elim id (ih hr)

/-- **A path that is not made of slashes alone ends in a piece**, but for slashes. -/
theorem exists_last_withoutEndSlashes {p : FilePath} {piece : String} (h : piece ∈ p.parts)
    (hne : piece ≠ "") : ∃ ps last, p.withoutEndSlashes.parts = ps ++ [last] ∧ last ≠ "" := by
  unfold withoutEndSlashes
  cases hdrop : p.text.toList.reverse.dropWhile (· == '/') with
  | nil =>
    have hslashes : ∀ c ∈ p.text.toList, c = '/' := by simpa [List.dropWhile_eq_nil_iff] using hdrop
    obtain ⟨cs, hcs, rfl⟩ := List.mem_map.1 h
    exact absurd (congrArg String.ofList (eq_nil_of_mem_pieces hslashes hcs)) hne
  | cons c r =>
    have hc : c ≠ '/' := by
      have hhead := List.head?_dropWhile_not (· == '/') p.text.toList.reverse
      simpa [hdrop] using hhead
    obtain ⟨ps, q, hps⟩ := exists_pieces_concat hc r.reverse
    refine ⟨ps.map String.ofList, String.ofList (q ++ [c]), ?_, by simp⟩
    rw [parts, String.toList_ofList, List.reverse_cons, hps, List.map_append]
    rfl

theorem isAbsolute_withoutEndSlashes (p : FilePath) :
    p.withoutEndSlashes.isAbsolute = p.isAbsolute := by
  obtain ⟨n, hn⟩ := p.exists_text_withoutEndSlashes
  cases htext : p.withoutEndSlashes.text.toList with
  | cons c r => simp [isAbsolute, hn, htext]
  | nil =>
    unfold withoutEndSlashes at htext ⊢
    split at htext
    · split at htext
      · simp at htext
      · next hrelative => rw [if_neg hrelative]
    · next hcs => exact absurd (by simpa using htext) hcs

/-! ## Steps -/

/-- Pieces that stand for steps spell these. -/
theorem map_piece_filterMap_step? (ps : List String) :
    (ps.filterMap step?).map Component.piece = ps.filter fun piece => (step? piece).isSome := by
  have hpiece : ∀ piece c, step? piece = some c → c.piece = piece := by
    intro piece c h
    unfold step? at h
    split at h
    · simp at h
    · split at h
      · next hup =>
        obtain rfl := Option.some.inj h
        exact hup.symm
      · obtain rfl := Option.some.inj h
        rfl
  induction ps with
  | nil => rfl
  | cons piece r ih =>
    cases hstep : step? piece with
    | none => rw [List.filterMap_cons_none hstep, List.filter_cons_of_neg (by simp [hstep]), ih]
    | some c =>
      rw [List.filterMap_cons_some hstep, List.filter_cons_of_pos (by simp [hstep]), List.map_cons,
        ih, hpiece piece c hstep]

/-- Empty pieces behind a name spell nothing. -/
theorem map_piece_steps {name : String} (hname : IsName name) (ps : List String) (n : Nat) :
    ((ps ++ [name] ++ List.replicate n "").filterMap step?).map Component.piece =
      ps.filter (fun piece => (step? piece).isSome) ++ [name] := by
  have hend : (List.replicate n "").filter (fun piece => (step? piece).isSome) = [] := by
    simp [step?]
  rw [map_piece_filterMap_step?, List.filter_append, List.filter_append, hend, List.append_nil,
    List.filter_cons_of_pos (by simp [step?_name hname]), List.filter_nil]

theorem isInner_of_step? {piece : String} {c : Component} (h : step? piece = some c)
    (hslash : '/' ∉ piece.toList) : c.IsInner := by
  unfold step? at h
  split at h
  · simp at h
  · next hstep =>
    split at h
    · obtain rfl := Option.some.inj h
      exact ⟨rfl, by decide, by decide⟩
    · obtain rfl := Option.some.inj h
      exact ⟨rfl, fun hempty => hstep (.inl hempty), hslash⟩

/-- **The steps of a path**: a root only at the start of an absolute path, and steps inside it. -/
theorem components_cases (p : FilePath) :
    (p.isAbsolute = true ∧ ∃ cs, p.components = .root :: cs ∧ ∀ c ∈ cs, c.IsInner) ∨
      (p.isAbsolute = false ∧ ∀ c ∈ p.components, c.IsInner) := by
  have hsteps : ∀ {ps : List String}, (∀ piece ∈ ps, piece ∈ p.parts) →
      ∀ c ∈ ps.filterMap step?, c.IsInner := by
    intro ps hps c hc
    obtain ⟨piece, hpiece, hstep⟩ := List.mem_filterMap.1 hc
    exact isInner_of_step? hstep (not_mem_of_mem_parts (hps piece hpiece))
  unfold components
  cases hparts : p.parts with
  | nil => exact absurd hparts p.parts_ne_nil
  | cons first r =>
    have hall := @hsteps p.parts fun piece h => h
    have hr := @hsteps r fun piece h => hparts ▸ List.mem_cons_of_mem _ h
    dsimp only
    split
    · next habsolute => exact .inl ⟨habsolute, _, rfl, hr⟩
    · next hrelative =>
      refine .inr ⟨by simpa using hrelative, ?_⟩
      split
      · exact List.forall_mem_cons.2 ⟨⟨rfl, by decide, by decide⟩, hr⟩
      · exact hparts ▸ hall

/-- Each name among the pieces is a step. -/
theorem mem_components {p : FilePath} {name : String} (hname : IsName name) (h : name ∈ p.parts) :
    .name name ∈ p.components := by
  obtain ⟨lead, hcomponents, -⟩ := p.exists_components_eq
  rw [hcomponents]
  exact List.mem_append_right _ (List.mem_filterMap.2 ⟨name, h, step?_name hname⟩)

/-- And each step by a name is a piece. -/
theorem mem_parts_of_mem_components {p : FilePath} {name : String}
    (h : .name name ∈ p.components) : name ∈ p.parts := by
  obtain ⟨lead, hcomponents, hlead⟩ := p.exists_components_eq
  rw [hcomponents, List.mem_append] at h
  obtain ⟨piece, hpiece, hstep⟩ := List.mem_filterMap.1
    (h.resolve_left (by rcases hlead with rfl | rfl | rfl <;> simp))
  exact eq_of_step?_name hstep ▸ hpiece

/-- A path without a step up has no such piece. -/
theorem up_not_mem_parts {p : FilePath} (h : .up ∉ p.components) : ".." ∉ p.parts := by
  obtain ⟨lead, hcomponents, -⟩ := p.exists_components_eq
  rw [hcomponents] at h
  exact fun hmem => h (List.mem_append_right _ (List.mem_filterMap.2 ⟨"..", hmem, by decide⟩))

/-- And the pieces that spell it do not go up. -/
theorem up_not_mem_spelled {p : FilePath} (h : .up ∉ p.components) : ".." ∉ p.spelled := by
  intro hmem
  obtain ⟨c, hc, hpiece⟩ := List.mem_map.1 hmem
  cases c with
  | root => exact absurd hpiece (by decide)
  | here => exact absurd hpiece (by decide)
  | up => exact h hc
  | name s =>
    obtain rfl : s = ".." := hpiece
    exact up_not_mem_parts h (mem_parts_of_mem_components hc)

/-- **A path that ends in a name**, but for slashes. -/
def EndsInName (p : FilePath) : Prop :=
  ∃ ps name, p.withoutEndSlashes.parts = ps ++ [name] ∧ IsName name

/-- Behind the name, there are empty pieces only. -/
theorem EndsInName.exists_parts {p : FilePath} (h : p.EndsInName) :
    ∃ ps name n, IsName name ∧ p.parts = ps ++ [name] ++ List.replicate n "" := by
  obtain ⟨ps, name, hparts, hname⟩ := h
  obtain ⟨n, hn⟩ := p.exists_parts_withoutEndSlashes
  exact ⟨ps, name, n, hname, hparts ▸ hn⟩

/-- Such a path has steps. -/
theorem EndsInName.components_ne_nil {p : FilePath} (h : p.EndsInName) : p.components ≠ [] := by
  obtain ⟨ps, name, n, hname, hparts⟩ := h.exists_parts
  exact List.ne_nil_of_mem (mem_components hname (by simp [hparts]))

/-- And so a text. -/
theorem EndsInName.not_isEmpty {p : FilePath} (h : p.EndsInName) : ¬ p.text.isEmpty = true := by
  intro hempty
  rw [String.isEmpty_iff] at hempty
  refine h.components_ne_nil ?_
  simp [components, parts, isAbsolute, step?, hempty, pieces]

/-- And the last step is that name. -/
theorem EndsInName.exists_fileName? {p : FilePath} (h : p.EndsInName) :
    ∃ name, IsName name ∧ p.fileName? = some name := by
  obtain ⟨ps, name, n, hname, hparts⟩ := h.exists_parts
  exact ⟨name, hname, fileName?_of_parts hname hparts⟩

/-- **The path of some steps has the pieces that spell them.** -/
theorem parts_ofComponents {cs : List Component} (hne : cs ≠ []) (hcs : ∀ c ∈ cs, c.IsInner) :
    (ofComponents cs).parts = cs.map Component.piece := by
  have htexts : cs.map Component.piece = cs.map Component.text :=
    List.map_congr_left fun c hc => (hcs c hc).piece_eq
  cases cs with
  | nil => exact absurd rfl hne
  | cons c r =>
    have hslash : ∀ s ∈ (c :: r).map Component.text, '/' ∉ s.toList := by
      intro s hs
      obtain ⟨c', hc', rfl⟩ := List.mem_map.1 hs
      exact (hcs c' hc').no_slash
    rw [htexts]
    unfold ofComponents
    split
    · next heq =>
      have hroot : Component.root.IsInner := hcs _ (heq ▸ List.mem_cons_self)
      exact absurd hroot.piece_eq (by decide)
    · exact pieces_intercalate hslash

/-- And the path of steps from the root begins with one more piece. -/
theorem parts_ofComponents_root {cs : List Component} (hne : cs ≠ []) (hcs : ∀ c ∈ cs, c.IsInner) :
    (ofComponents (.root :: cs)).parts = (Component.root :: cs).map Component.piece := by
  have htexts : cs.map Component.piece = cs.map Component.text :=
    List.map_congr_left fun c hc => (hcs c hc).piece_eq
  have hslash : ∀ s ∈ cs.map Component.text, '/' ∉ s.toList := by
    intro s hs
    obtain ⟨c', hc', rfl⟩ := List.mem_map.1 hs
    exact (hcs c' hc').no_slash
  have hplace := parts_ofPlace hslash
  rw [if_neg (mt List.map_eq_nil_iff.1 hne)] at hplace
  rw [List.map_cons, htexts]
  exact hplace

end FilePath

/-! ## Where spelled steps lead -/

namespace FileTree

variable (t : FileTree) {place : Place}

/-- Nothing is followed from where nothing stands. -/
theorem locate_of_none {ps : List String} (hps : ps ≠ []) (h : t.at? place = none) :
    t.locate place ps = .error .notFound := by
  cases ps with
  | nil => exact absurd rfl hps
  | cons _ _ => simp only [locate, h]

/-- Nor from where a file stands. -/
theorem locate_of_file {ps : List String} {bytes : ByteArray} (hps : ps ≠ [])
    (h : t.at? place = some (.file bytes)) : t.locate place ps = .error .notDirectory := by
  cases ps with
  | nil => exact absurd rfl hps
  | cons _ _ => simp only [locate, h]

/-- So pieces lead to the same if they do so from a directory. -/
theorem locate_congr {ps qs : List String} (hps : ps ≠ []) (hqs : qs ≠ [])
    (h : t.at? place = some .directory → t.locate place ps = t.locate place qs) :
    t.locate place ps = t.locate place qs := by
  cases hat : t.at? place with
  | none => rw [t.locate_of_none hps hat, t.locate_of_none hqs hat]
  | some e =>
    cases e with
    | file bytes => rw [t.locate_of_file hps hat, t.locate_of_file hqs hat]
    | directory => exact h hat

/-- A piece that stands for no step is only missed at the end. -/
theorem locate_filter (ps : List String) (last : String) :
    t.locate place (ps ++ [last]) =
      t.locate place (ps.filter (fun piece => (FilePath.step? piece).isSome) ++ [last]) := by
  induction ps generalizing place with
  | nil => rfl
  | cons piece r ih =>
    refine t.locate_congr (by simp) (by simp) fun hdir => ?_
    cases hstep : FilePath.step? piece with
    | none =>
      have hstay : leadsTo place [piece] = place := by simp [leadsTo, hstep]
      have hfits : fits piece = true := FilePath.fits_of_step? (by simp [hstep])
      rw [List.filter_cons_of_neg (by simp [hstep]), List.cons_append, t.locate_cons hdir, if_pos hfits, hstay, ih]
    | some c =>
      rw [List.filter_cons_of_pos (by simp [hstep]), List.cons_append, List.cons_append,
        t.locate_cons hdir, t.locate_cons hdir, ih]

/-- **The pieces that spell a path lead where the path leads**, if it ends in a name and slashes. -/
theorem locate_spelled {p : FilePath} {ps : List String} {name : String} (hname : IsName name)
    (hparts : p.withoutEndSlashes.parts = ps ++ [name]) :
    t.locate place p.withoutEndSlashes.parts = t.locate place p.spelled := by
  obtain ⟨n, hn⟩ := p.exists_parts_withoutEndSlashes
  have hsteps := fun qs => FilePath.map_piece_steps hname qs n
  rw [hparts] at hn ⊢
  cases ps with
  | nil =>
    have habsolute : ¬ p.isAbsolute = true := by
      rw [FilePath.isAbsolute_iff, hn]
      rintro ⟨_, -, h⟩
      exact hname.ne_empty (List.cons.inj h).1
    have hspelled : p.spelled = [name] := by
      have hone := hsteps []
      rw [List.nil_append] at hone hn
      unfold FilePath.spelled FilePath.components
      rw [hn]
      dsimp only [List.cons_append, List.nil_append]
      rw [if_neg habsolute, if_neg hname.ne_here]
      simpa using hone
    rw [hspelled, List.nil_append]
  | cons first r =>
    -- a first piece that stands for no step is spelled all the same
    have hlead : ∀ c : Component, c.piece = first →
        t.locate place (first :: (r ++ [name])) =
          t.locate place ((c :: (r ++ [name] ++ List.replicate n "").filterMap FilePath.step?).map
            Component.piece) := by
      intro c hc
      refine t.locate_congr (by simp) (by simp) fun hdir => ?_
      rw [List.map_cons, hc, hsteps, t.locate_cons hdir, t.locate_cons hdir, t.locate_filter]
    unfold FilePath.spelled FilePath.components
    rw [hn]
    dsimp only [List.cons_append]
    split
    · next habsolute =>
      obtain ⟨_, -, h⟩ := FilePath.isAbsolute_iff.1 habsolute
      exact hlead .root (List.cons.inj (hn.symm.trans h)).1.symm
    · split
      · next hfirst => exact hlead .here hfirst.symm
      · have hall := hsteps (first :: r)
        rw [List.cons_append, List.cons_append] at hall
        rw [hall]
        exact t.locate_filter (first :: r) name

end FileTree

end ModelPool
