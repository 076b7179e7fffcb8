import ModelPool.Pool.Synthesis
import ModelPool.Proofs.Load.Growth
import ModelPool.Proofs.Pool.FileNames

/-!
# Proofs/Pool/Filling — what stands in a pool that has been filled

    placeholder        ──writeAll──▸     placeholder, sources     ──read──▸     a package

Sources of different names are written one after the other, so each of them stands in its directory in the
end.  The package that is read from the directory has those among them for its files which are named like
source files.

* `holds_writeAll` — what a directory holds when sources have been written to it.
* `HoldsOnly.mem_files_iff` — the files of the package in it.
-/

namespace ModelPool

open Text

namespace FileTree

/-! ## Directories with sources -/

/-- **A directory holds sources**: a file for each name with its text. -/
structure Holds (t : FileTree) (d : Place) (sources : List (String × String)) : Prop where
  directory : t.at? d = some .directory
  file : ∀ source ∈ sources, t.at? (d ++ [source.1]) = some (.file source.2.toUTF8)

/-- **And it holds no other files.** -/
structure HoldsOnly (t : FileTree) (d : Place) (sources : List (String × String)) : Prop
    extends Holds t d sources where
  only : ∀ name bytes, t.at? (d ++ [name]) = some (.file bytes) → name ∈ sources.map Prod.fst

variable {t u : FileTree} {d : Place} {held sources : List (String × String)} {dir : FilePath}

/-- One more file of another name. -/
theorem Holds.writeFile {source : String × String} (h : t.Holds d held)
    (hnew : source.1 ∉ held.map Prod.fst)
    (hputs : t.Puts (d ++ [source.1]) (.file source.2.toUTF8) u) : u.Holds d (held ++ [source]) where
  directory := by
    rw [hputs.at?_eq, if_neg (by simp), h.directory]
  file := by
    intro other hother
    rw [hputs.at?_eq]
    rcases List.mem_append.1 hother with hold | hlast
    · have hne : d ++ [other.1] ≠ d ++ [source.1] := by
        intro heq
        obtain ⟨hname, -⟩ := List.cons.inj (List.append_cancel_left heq)
        exact hnew (hname ▸ List.mem_map_of_mem hold)
      rw [if_neg hne, h.file other hold]
    · rw [List.mem_singleton.1 hlast, if_pos rfl]

theorem HoldsOnly.writeFile {source : String × String} (h : t.HoldsOnly d held)
    (hnew : source.1 ∉ held.map Prod.fst)
    (hputs : t.Puts (d ++ [source.1]) (.file source.2.toUTF8) u) :
    u.HoldsOnly d (held ++ [source]) where
  toHolds := h.toHolds.writeFile hnew hputs
  only := by
    intro name bytes hat
    rw [hputs.at?_eq] at hat
    rw [List.map_append, List.mem_append]
    split at hat
    · next heq =>
      obtain ⟨rfl, -⟩ := List.cons.inj (List.append_cancel_left heq)
      exact .inr List.mem_cons_self
    · exact .inl (h.only name bytes hat)

end FileTree

open FileTree

/-! ## Files that are named like sources -/

theorem isSourceName_placeholderFile : isSourceName placeholderFile = true := by
  decide +kernel

theorem isSourceName_registryFile : isSourceName registryFile = true := by
  decide +kernel

/-- **The file of a model is named like a source file** unless the model's name is hidden. -/
theorem isSourceName_modelFile_iff {model : String} (h : Source.isWord model.toList = true) :
    isSourceName (modelFile model) = true ↔ isHiddenName model = false := by
  have hne : model ≠ "" := (isSegment_of_isWord h).ne_empty
  rw [isSourceName, isSourcePath_modelFile h, isHiddenName_modelFile hne, Bool.true_and, Bool.not_eq_true']

/-! ## Writing sources -/

variable {t u : FileTree} {d : Place} {held sources : List (String × String)} {dir : FilePath}

/-- **What a directory holds when sources have been written to it.**  It is still found, the files that are
told are those of the sources, and it holds them besides what it held before. -/
theorem holds_writeAll {files : List FilePath} (hdir : t.find dir = .ok (d, .directory))
    (hnames : ∀ source ∈ sources, IsName source.1) (hnew : ((held ++ sources).map Prod.fst).Nodup)
    (hheld : t.Holds d held) (h : writeAll dir t sources = (u, .ok files)) :
    u.find dir = .ok (d, .directory) ∧ files = sources.map (fun source => dir.child source.1) ∧
      u.Holds d (held ++ sources) ∧ (t.HoldsOnly d held → u.HoldsOnly d (held ++ sources)) := by
  induction sources generalizing t held files with
  | nil =>
    obtain ⟨rfl, hfiles⟩ := Prod.mk.inj h
    obtain rfl := Except.ok.inj hfiles
    rw [List.append_nil]
    exact ⟨hdir, rfl, hheld, id⟩
  | cons source r ih =>
    obtain ⟨hname, hr⟩ := List.forall_mem_cons.1 hnames
    unfold writeAll at h
    dsimp only at h
    split at h
    · exact absurd (congrArg Prod.snd h) (by simp)
    · next v hv =>
      obtain ⟨place, hplace, hfile, hputs⟩ := puts_of_writeFile hv
      obtain rfl := t.eq_of_place_child hdir hname hplace
      have hfresh : source.1 ∉ held.map Prod.fst := by
        rw [List.map_append, List.nodup_append] at hnew
        exact fun hmem => hnew.2.2 _ hmem _ List.mem_cons_self rfl
      have hassoc : held ++ source :: r = held ++ [source] ++ r := by simp
      rw [hassoc] at hnew ⊢
      cases hrest : writeAll dir v r with
      | mk last result =>
        rw [hrest] at h
        obtain ⟨rfl, hresult⟩ := Prod.mk.inj h
        cases result with
        | error e => exact absurd hresult (by simp [Except.map])
        | ok others =>
          obtain rfl : dir.child source.1 :: others = files := Except.ok.inj hresult
          obtain ⟨hfind, rfl, hholds, honly⟩ := ih (hputs.find_directory hfile hdir) hr hnew
            (hheld.writeFile hfresh hputs) hrest
          exact ⟨hfind, rfl, hholds, fun hheldOnly => honly (hheldOnly.writeFile hfresh hputs)⟩

/-! ## The package in the directory -/

/-- The file that a source is read as. -/
def sourceFileIn (d : Place) (source : String × String) : SourceFile :=
  ⟨(FilePath.ofPlace d).child source.1, .ofText source.2⟩

section Reading

variable {roots : SourceRoots} {info : PackageInfo} {source : String × String}

theorem FileTree.Holds.readFile (h : t.Holds d sources) (hsource : source ∈ sources)
    (hname : IsName source.1) :
    PackageInfo.readFile t ((FilePath.ofPlace d).child source.1) = .ok (sourceFileIn d source) := by
  have hfind := (t.find_child (t.find_ofPlace h.directory) hname).2 (h.file source hsource)
  unfold PackageInfo.readFile
  rw [t.readCharacters_of_find hfind]
  rfl

/-- **The files of a package are read from the source files of its directory.** -/
theorem PackageInfo.mem_files_iff (hdir : t.find dir = .ok (d, .directory))
    (h : PackageInfo.read t roots dir = .ok info) {f : SourceFile} :
    f ∈ info.files ↔ ∃ name, (∃ bytes, t.at? (d ++ [name]) = some (.file bytes)) ∧
      isSourceName name = true ∧
      PackageInfo.readFile t ((FilePath.ofPlace d).child name) = .ok f := by
  obtain ⟨-, paths, files, hpaths, -, hfiles, rfl⟩ := PackageInfo.read_eq_ok_iff.1 h
  rw [normalized_of_find hdir] at hpaths
  have hplace := t.find_ofPlace (t.find_eq_ok_iff.1 hdir).2
  change f ∈ files ↔ _
  rw [mem_of_mapM hfiles]
  constructor
  · rintro ⟨path, hpath, hread⟩
    obtain ⟨name, rfl, hat, hname⟩ := (mem_sourceFiles hplace hpaths).1 hpath
    exact ⟨name, hat, hname, hread⟩
  · rintro ⟨name, hat, hname, hread⟩
    exact ⟨_, (mem_sourceFiles hplace hpaths).2 ⟨name, rfl, hat, hname⟩, hread⟩

/-- **What a directory holds is read with its package**, if it is named like a source file. -/
theorem FileTree.Holds.mem_files (h : t.Holds d sources) (hdir : t.find dir = .ok (d, .directory))
    (hread : PackageInfo.read t roots dir = .ok info) (hsource : source ∈ sources)
    (hname : isSourceName source.1 = true) : sourceFileIn d source ∈ info.files := by
  have hat := h.file source hsource
  exact (PackageInfo.mem_files_iff hdir hread).2
    ⟨source.1, ⟨_, hat⟩, hname, h.readFile hsource (t.isName_of_at? hat _ (by simp))⟩

/-- **And there are no other files.** -/
theorem FileTree.HoldsOnly.mem_files_iff (h : t.HoldsOnly d sources)
    (hdir : t.find dir = .ok (d, .directory)) (hread : PackageInfo.read t roots dir = .ok info)
    {f : SourceFile} : f ∈ info.files ↔
      ∃ source ∈ sources, isSourceName source.1 = true ∧ f = sourceFileIn d source := by
  constructor
  · intro hf
    obtain ⟨name, ⟨bytes, hat⟩, hname, hfile⟩ := (PackageInfo.mem_files_iff hdir hread).1 hf
    obtain ⟨source, hsource, rfl⟩ := List.mem_map.1 (h.only name bytes hat)
    refine ⟨source, hsource, hname, ?_⟩
    exact Except.ok.inj (hfile.symm.trans (h.readFile hsource (t.isName_of_at? hat _ (by simp))))
  · rintro ⟨source, hsource, hname, rfl⟩
    exact h.toHolds.mem_files hdir hread hsource hname

end Reading

end ModelPool
