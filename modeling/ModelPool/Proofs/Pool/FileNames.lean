import ModelPool.Pool.Emit
import ModelPool.Proofs.Files.Paths
import ModelPool.Proofs.Source.Names
import ModelPool.Proofs.Source.Words
import ModelPool.Proofs.Text.SnakeCase

/-!
# Proofs/Pool/FileNames — the files of a pool have names

A model is named by a word, so its file has a name that stands for one step of a path, and this is neither
the name of the placeholder nor that of the registry.

    Order    order.rs     read with the package
    _Order   _order.rs    left out of the package

* `isName_modelFile` — the name of a model's file.
* `fileStem_not_mem` — it is no other file's of the pool.
* `isHiddenName_modelFile` — the files that are left out.
-/

namespace ModelPool

open Text Source

/-! ## Names of files -/

/-- A word has no slash. -/
theorem slash_not_mem_of_isWord {cs : List Char} (h : isWord cs = true) : '/' ∉ cs :=
  not_mem_of_isWord h (by decide) (by decide)

/-- What ends like a source file and has no slash is a name. -/
theorem isName_append_extension {stem : String} (h : '/' ∉ stem.toList) :
    IsName (stem ++ ".rs") := by
  have htext : (stem ++ ".rs").toList = stem.toList ++ ['.', 'r', 's'] := by
    rw [String.toList_append]
    rfl
  have hlength : ∀ other : String, other.toList.length < 3 → stem ++ ".rs" ≠ other := by
    rintro other hlt rfl
    rw [htext, List.length_append] at hlt
    have hextension : ['.', 'r', 's'].length = 3 := rfl
    omega
  refine ⟨hlength _ (by decide), hlength _ (by decide), hlength _ (by decide), ?_⟩
  rw [htext, List.mem_append, not_or]
  exact ⟨h, by decide⟩

/-- **The stem of a model's file** is the model's name in snake case, or that with a mark behind it. -/
theorem toList_fileStem (model : String) : ∃ mark, '/' ∉ mark ∧
    (fileStem model).toList = (snakeCase model).toList ++ mark := by
  unfold fileStem
  dsimp only
  split
  · exact ⟨"_model".toList, by decide, by rw [String.toList_append]⟩
  · exact ⟨[], List.not_mem_nil, by rw [List.append_nil]⟩

theorem slash_not_mem_fileStem {model : String} (h : isWord model.toList = true) :
    '/' ∉ (fileStem model).toList := by
  obtain ⟨mark, hmark, hstem⟩ := toList_fileStem model
  rw [hstem, List.mem_append, not_or]
  exact ⟨not_mem_snakeCase (by decide) (by decide) (slash_not_mem_of_isWord h), hmark⟩

/-- **The file of a model has a name.** -/
theorem isName_modelFile {model : String} (h : isWord model.toList = true) :
    IsName (modelFile model) :=
  isName_append_extension (slash_not_mem_fileStem h)

theorem isName_registryFile : IsName registryFile :=
  @isName_append_extension "registry" (by decide)

theorem isName_placeholderFile : IsName placeholderFile :=
  @isName_append_extension "temp" (by decide)

theorem isEntryName_placeholderFile : IsEntryName placeholderFile := ⟨isName_placeholderFile, by decide⟩

/-- **A model's file has no reserved name.** -/
theorem fileStem_not_mem (model : String) : fileStem model ∉ reservedStems := by
  unfold fileStem
  dsimp only
  split
  · next hreserved =>
    have hmem : snakeCase model = "temp" ∨ snakeCase model = "registry" := by
      simpa [reservedStems] using hreserved
    rcases hmem with heq | heq <;> rw [heq] <;> decide
  · next hfree => simpa using hfree

theorem eq_of_append_extension {stem other : String} (h : stem ++ ".rs" = other ++ ".rs") :
    stem = other := by
  have hlist := congrArg String.toList h
  rw [String.toList_append, String.toList_append] at hlist
  exact String.toList_inj.1 (List.append_cancel_right hlist)

/-- **And it is neither the placeholder** -/
theorem modelFile_ne_placeholderFile (model : String) : modelFile model ≠ placeholderFile := by
  intro h
  have hstem : fileStem model = "temp" := @eq_of_append_extension _ "temp" h
  exact fileStem_not_mem model (hstem ▸ by decide)

/-- nor the registry. -/
theorem modelFile_ne_registryFile (model : String) : modelFile model ≠ registryFile := by
  intro h
  have hstem : fileStem model = "registry" := @eq_of_append_extension _ "registry" h
  exact fileStem_not_mem model (hstem ▸ by decide)

/-! ## Files that are read -/

theorem isHiddenName_iff {name : String} :
    isHiddenName name = true ↔ name.toList.head? = some '.' ∨ name.toList.head? = some '_' := by
  unfold isHiddenName
  split
  · next h => simp [h]
  · next h => simp [h]
  · next hdot hlone =>
    refine iff_of_false (by simp) ?_
    rintro (h | h) <;> obtain ⟨r, hr⟩ := List.head?_eq_some_iff.1 h
    · exact hdot r hr
    · exact hlone r hr

/-- **The file of a model is hidden exactly if the model's name is that of a hidden file.** -/
theorem isHiddenName_modelFile {model : String} (h : model ≠ "") :
    isHiddenName (modelFile model) = isHiddenName model := by
  obtain ⟨mark, -, hmark⟩ := toList_fileStem model
  have hhead : (modelFile model).toList.head? = (snakeCase model).toList.head? := by
    rw [modelFile, String.toList_append, hmark, List.append_assoc]
    cases hlist : (snakeCase model).toList with
    | nil => exact absurd hlist (snakeCase_ne_nil h)
    | cons c r => rfl
  rw [Bool.eq_iff_iff, isHiddenName_iff, isHiddenName_iff, hhead, head?_snakeCase (by decide),
    head?_snakeCase (by decide)]

/-- What ends like a source file and is more than that is the path of one. -/
theorem isSourcePath_append_extension {stem : String} (hne : stem ≠ "") (h : '/' ∉ stem.toList) :
    isSourcePath ⟨stem ++ ".rs"⟩ = true := by
  have hname := isName_append_extension h
  have hfile := FileTree.fileName?_name hname
  have hreversed : (stem ++ ".rs").toList.reverse = 's' :: 'r' :: '.' :: stem.toList.reverse := by
    rw [String.toList_append, List.reverse_append]
    rfl
  have hextension : FilePath.extensionOf? (stem ++ ".rs") = some "rs" := by
    unfold FilePath.extensionOf?
    dsimp only
    rw [hreversed]
    have hrest : stem.toList.reverse ≠ [] := by simpa using hne
    cases hlist : stem.toList.reverse with
    | nil => exact absurd hlist hrest
    | cons c r => rfl
  have hlower : ("rs".toLower == sourceExtension) = true := by decide +kernel
  simp only [isSourcePath, FilePath.extension?, hfile, Option.bind_some, hextension, hlower]

theorem isSourcePath_modelFile {model : String} (h : isWord model.toList = true) :
    isSourcePath ⟨modelFile model⟩ = true := by
  obtain ⟨mark, -, hmark⟩ := toList_fileStem model
  have hmodel : model ≠ "" := by
    rintro rfl
    exact absurd h (by decide)
  refine isSourcePath_append_extension ?_ (slash_not_mem_fileStem h)
  intro hempty
  rw [hempty] at hmark
  exact snakeCase_ne_nil hmodel (List.append_eq_nil_iff.1 hmark.symm).1

end ModelPool
