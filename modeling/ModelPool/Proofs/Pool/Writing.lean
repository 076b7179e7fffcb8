import ModelPool.Pool.Synthesis
import ModelPool.Proofs.Files.Growth
import ModelPool.Proofs.Pool.Agreement
import ModelPool.Proofs.Pool.FileNames
import ModelPool.Proofs.Pool.TypeWriting

/-!
# Proofs/Pool/Writing — what a pool is filled with

The sources of a pool are files of its models and the registry, and there are sources only where every
target of a field stands for something.  Writing them makes the tree grow in the directory of the pool.

* `poolSources_eq_ok` — what is known of the sources of a pool.
* `Program.isWord_of_merge` — the models of a program are named by words.
* `grows_writeAll` — the tree grows.
-/

namespace ModelPool

open FileTree

/-! ## Sources -/

namespace Emitter

variable {e : Emitter}

/-- Only targets that stand for something are written. -/
theorem isResolved_of_model {m : MergedModel} {content : String} (h : e.model m = .ok content) :
    ∀ f ∈ m.fields, ∀ target ∈ ResolvedType.targets f.type, target.IsResolved := by
  rintro f hf target htarget path rfl
  exact absurd ((model_eq_ok_iff.1 h).1 f hf _ htarget) (by simp [refusal?])

/-- **Each model is written to its own file.** -/
theorem modelFiles_eq_ok {ms : List MergedModel} {used sources : List (String × String)}
    (h : e.modelFiles used ms = .ok sources) :
    (∀ m ∈ ms, ∃ content, e.model m = .ok content) ∧
      ∀ source ∈ sources, ∃ m ∈ ms, source.1 = modelFile m.name := by
  induction ms generalizing used sources with
  | nil =>
    obtain rfl := Except.ok.inj h
    simp
  | cons m r ih =>
    unfold modelFiles at h
    dsimp only at h
    split at h
    · simp at h
    · obtain ⟨content, hcontent, h⟩ := bind_eq_ok_iff.1 h
      obtain ⟨others, hothers, h⟩ := bind_eq_ok_iff.1 h
      obtain rfl := Except.ok.inj h
      obtain ⟨hall, hnames⟩ := ih hothers
      refine ⟨List.forall_mem_cons.2 ⟨⟨content, hcontent⟩, hall⟩, ?_⟩
      refine List.forall_mem_cons.2 ⟨⟨m, List.mem_cons_self, rfl⟩, fun source hsource => ?_⟩
      obtain ⟨n, hn, hname⟩ := hnames source hsource
      exact ⟨n, List.mem_cons_of_mem _ hn, hname⟩

end Emitter

/-- **What is known of the sources of a pool**: they are made of the models of the program, whose targets
all stand for something, and they are the models' files and the registry. -/
theorem poolSources_eq_ok {pool poolName : String} {p : Program} {names : List String}
    {sources : List (String × String)} (h : poolSources pool poolName p = .ok (names, sources)) :
    ∃ models, p.merge pool = .ok models ∧ AllResolved models ∧
      ∀ source ∈ sources, (∃ m ∈ models, source.1 = modelFile m.name) ∨ source.1 = registryFile := by
  obtain ⟨models, hmodels, h⟩ := bind_eq_ok_iff.1 h
  obtain ⟨written, hwritten, h⟩ := bind_eq_ok_iff.1 h
  obtain ⟨-, rfl⟩ := Prod.mk.inj (Except.ok.inj h)
  obtain ⟨files, hfiles, h⟩ := bind_eq_ok_iff.1 hwritten
  obtain rfl := Except.ok.inj h
  obtain ⟨hall, hsources⟩ := Emitter.modelFiles_eq_ok hfiles
  refine ⟨models, hmodels, ?_, fun source hsource => ?_⟩
  · rintro _ n type ⟨m, hm, rfl, f, hf, rfl, rfl⟩
    obtain ⟨content, hcontent⟩ := hall m hm
    exact Emitter.isResolved_of_model hcontent f hf
  · rcases List.mem_append.1 hsource with hsource | hsource
    · exact .inl (hsources source hsource)
    · exact .inr (congrArg Prod.fst (List.mem_singleton.1 hsource))

/-- **What a synthesizer that ends well has written**: the sources of the pool. -/
theorem synthesizePool_eq_ok {pool poolName : String} {t u : FileTree} {p : Program} {dir : FilePath}
    {output : Synthesis} (h : synthesizePool pool poolName t p dir = (u, .ok output)) :
    ∃ sources, poolSources pool poolName p = .ok (output.models, sources) ∧
      writeAll dir t sources = (u, .ok output.files) := by
  unfold synthesizePool at h
  split at h
  · simp at h
  · next names sources hsources =>
    obtain ⟨rfl, hresult⟩ := Prod.mk.inj h
    cases hwrite : writeAll dir t sources with
    | mk last result =>
      rw [hwrite] at hresult
      cases result with
      | error e => exact absurd hresult (by simp [Except.map])
      | ok files =>
        obtain rfl := Except.ok.inj hresult
        exact ⟨sources, hsources, hwrite⟩

/-! ## Names -/

/-- A model struct is a struct. -/
theorem Item.exists_struct {i : Item} (h : i.isModel = true) : ∃ fs, i.kind = .struct fs := by
  unfold isModel at h
  cases hkind : i.kind with
  | struct fs => exact ⟨fs, rfl⟩
  | _ => simp [hkind] at h

/-- **The models of a program are named by words.** -/
theorem Program.isWord_of_merge {t : FileTree} {roots : SourceRoots} {imports : ImportSet}
    {mode : LoadMode} {p : Program} {pool : String} {models : List MergedModel}
    (h : load t roots imports mode = .ok p) (hmodels : p.merge pool = .ok models) {m : MergedModel}
    (hm : m ∈ models) : Source.isWord m.name.toList = true := by
  have hname := (mem_names_of_mergeFragments hmodels).1 (List.mem_map_of_mem hm)
  obtain ⟨path, f, i, ⟨-, ⟨info, hinfo, hf⟩, hi⟩, hname⟩ := (exists_contribution_iff h).1 hname
  obtain ⟨⟨dir, -, hread⟩, -⟩ := mem_loaded_iff.1 hinfo
  obtain ⟨cs, hcs⟩ := PackageInfo.exists_ofCharacters_of_read hread hf
  obtain ⟨hitem, hmodel⟩ := List.mem_filter.1 hi
  obtain ⟨fs, hkind⟩ := Item.exists_struct hmodel
  rw [← hname]
  exact SourceUnit.isWord_of_mem_items (hcs ▸ hitem) hkind

/-! ## Files -/

/-- **Writing sources makes the tree grow**, if no file of their names has been there. -/
theorem grows_writeAll {dir : FilePath} {d : Place} {t u : FileTree}
    (hdir : t.find dir = .ok (d, .directory)) {sources : List (String × String)}
    (hnames : ∀ source ∈ sources, IsName source.1 ∧
      ∀ bytes, t.at? (d ++ [source.1]) ≠ some (.file bytes)) (h : Grows d t u) :
    Grows d t (writeAll dir u sources).1 := by
  induction sources generalizing u with
  | nil => exact h
  | cons source r ih =>
    obtain ⟨name, content⟩ := source
    obtain ⟨⟨hname, hnew⟩, hr⟩ := List.forall_mem_cons.1 hnames
    unfold writeAll
    dsimp only
    split
    · exact h
    · next v hv => exact ih hr (h.writeFile hdir hname hnew hv)

end ModelPool
