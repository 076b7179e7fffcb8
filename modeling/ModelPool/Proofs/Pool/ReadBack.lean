import ModelPool.Files.Texts
import ModelPool.Proofs.Load.Counted
import ModelPool.Proofs.Pool.Rendering

/-!
# Proofs/Pool/ReadBack — generated files declare the models they were made for

    model  ──write──▸  text  ──read──▸  one public struct, one block with two constants

The file of a model is read back if nothing in the model leaves its place.  Documentation with a line feed
does: its second line is no comment any more, so it can declare what the model does not.

* `Program.sources_read_back` — what is read from the file of a model.
* `Program.not_forall_read_back` — documentation that leaves its comment.
-/

namespace ModelPool

open Text Source Emitter

namespace Program

variable {t : FileTree} {roots : SourceRoots} {imports : ImportSet} {mode : LoadMode} {p : Program}
  {pool poolName : String} {names : List String} {sources : List (String × String)}

/-- **Generated files are read back.**  Where the sources of a pool can be made, each model has its file among
them.  If nothing in the model leaves its place, this file is well formed and declares the pool as its package,
one public struct with the name, the documentation and the fields of the model, in their order and with their
documentation, and one block for this struct with its two constants. -/
theorem sources_read_back (h : load t roots imports mode = .ok p) (hpool : isWord poolName.toList = true)
    (hsources : poolSources pool poolName p = .ok (names, sources)) :
    ∃ models, p.merge pool = .ok models ∧ names = models.map MergedModel.name ∧
      ∀ m ∈ models, ∃ text, (modelFile m.name, text) ∈ sources ∧
        ((ofModels pool poolName models).Contains m →
          (ofModels pool poolName models).Declares m ((ofModels pool poolName models).expressions m)
            (.ofText text)) := by
  obtain ⟨models, files, hmodels, hnames, -⟩ := exists_models_of_poolSources hsources
  exact ⟨models, hmodels, hnames, fun m hm => exists_source_of_model h hpool hmodels hsources hm⟩

/-- Two packages; the model of the first one has documentation, an import and fields of several shapes. -/
def plainTree : FileTree :=
  .ofTexts [(["a", "x.rs"], "use b::C;\n/// Of `a`.\n#[model]\npub struct A \x7b\n/// An x.\n" ++
      "pub x: Vec<Option<C>>,\nr#y: &'static mut [(u8, C); 4]\x7d"),
    (["b", "x.rs"], "pub struct C;")]

/-- The model of the first package. -/
def plainModel : MergedModel :=
  ⟨"A", ["Of `a`."], ["a"],
    [⟨"x", .path (.builtin "Vec") [.path (.builtin "Option") [.path (.declared "b" "C") []]], ["An x."], "a"⟩,
      ⟨"r#y", .reference (some "static") true (.array (.tuple [.path (.builtin "u8") [],
        .path (.declared "b" "C") []]) "4"), [], "a"⟩]⟩

/-- Its file is read back. -/
theorem sources_read_back_plain : ∃ p names sources,
    load plainTree rootOnly ⟨["a"]⟩ .tolerant = .ok p ∧ isWord "pool".toList = true ∧
      poolSources "pool" "pool" p = .ok (names, sources) ∧
      (ofModels "pool" "pool" [plainModel]).Contains plainModel ∧
      ∃ text, (modelFile "A", text) ∈ sources ∧
        (ofModels "pool" "pool" [plainModel]).Declares plainModel
          ((ofModels "pool" "pool" [plainModel]).expressions plainModel) (.ofText text) := by
  obtain ⟨p, hp, hmodels⟩ : ∃ p, load plainTree rootOnly ⟨["a"]⟩ .tolerant = .ok p ∧
      p.merge "pool" = .ok [plainModel] :=
    exists_load (by simp) (by decide +kernel)
  have hcontains : (ofModels "pool" "pool" [plainModel]).Contains plainModel := by decide +kernel
  have hok : (ofModels "pool" "pool" [plainModel]).files.isOk = true := by decide +kernel
  obtain ⟨sources, hsources⟩ := exists_poolSources_of_isOk hmodels hok
  obtain ⟨models, hmodels', -, hback⟩ := sources_read_back hp (by decide) hsources
  obtain rfl : [plainModel] = models := Except.ok.inj (hmodels.symm.trans hmodels')
  obtain ⟨text, htext, hdeclares⟩ := hback plainModel List.mem_cons_self
  exact ⟨p, _, sources, hp, by decide, hsources, hcontains, text, htext, hdeclares hcontains⟩

/-! ## Documentation that leaves its comment -/

/-- A model with two lines in one comment, the second of which looks like an attribute. -/
def escapingTree : FileTree :=
  .ofTexts [(["a", "x.rs"], "/** first\n#[model] */\n#[model]\npub struct A { pub x: u8 }")]

/-- The model that is made from it. -/
def escapingModel : MergedModel :=
  ⟨"A", ["first\n#[model]"], ["a"], [⟨"x", .path (.builtin "u8") [], [], "a"⟩]⟩

/-- What is written for it. -/
def escapingText : String :=
  preamble "pool" ++ "\n" ++ modelDocs escapingModel ++
    structLines escapingModel [(⟨"x", .path (.builtin "u8") [], [], "a"⟩, "u8")] ++ "\n" ++
      implLines escapingModel

/-- The second line of the comment is an attribute of the struct that is written. -/
theorem models_escapingText : (SourceUnit.ofText escapingText).models ≠ [] := by
  rw [SourceUnit.ofText, toList_eq_characters]
  decide +kernel

/-- **Not every generated file is read back**, although every source of the program is well formed: where the
documentation has a line feed, the struct that is written is a model in its own right. -/
theorem not_forall_read_back : ¬ ∀ (t : FileTree) (roots : SourceRoots) (imports : ImportSet) (p : Program)
    (models : List MergedModel) (names : List String) (sources : List (String × String)),
    load t roots imports .tolerant = .ok p →
      (∀ a ∈ p.packages, ∀ f ∈ a.files, f.unit.isWellFormed = true) → p.merge "pool" = .ok models →
      poolSources "pool" "pool" p = .ok (names, sources) →
      ∀ m ∈ models, ∀ text, (modelFile m.name, text) ∈ sources →
        (ofModels "pool" "pool" models).Declares m ((ofModels "pool" "pool" models).expressions m)
          (.ofText text) := by
  intro hall
  obtain ⟨p, hp, hwell, hmodels⟩ : ∃ p, load escapingTree rootOnly ⟨["a"]⟩ .tolerant = .ok p ∧
      (∀ a ∈ p.packages, ∀ f ∈ a.files, f.unit.isWellFormed = true) ∧
      p.merge "pool" = .ok [escapingModel] :=
    exists_load (by simp) (by decide +kernel)
  have hfiles : (ofModels "pool" "pool" [escapingModel]).files =
      .ok [(modelFile "A", escapingText),
        (registryFile, (ofModels "pool" "pool" [escapingModel]).registry)] := by
    decide +kernel
  obtain ⟨gs, line, -, hitems⟩ :=
    (hall _ _ _ p _ _ _ hp hwell hmodels (poolSources_of_files hmodels hfiles) escapingModel List.mem_cons_self escapingText
      List.mem_cons_self).item
  refine models_escapingText ?_
  rw [SourceUnit.models, hitems]
  rfl

end Program

end ModelPool
