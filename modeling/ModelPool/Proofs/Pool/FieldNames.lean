import ModelPool.Proofs.Load.Counted
import ModelPool.Proofs.Pool.Provenance
import ModelPool.Proofs.Pool.QuotedTexts
import ModelPool.Proofs.Pool.Rendering

/-!
# Proofs/Pool/FieldNames — the names of fields, spelled and plain

    b: A x    a: A r#x                     spelled apart, so both are kept
    pub struct A { x, r#x }                the fields as they are spelled
    FIELD_NAMES = ["x", "x"]               their plain names

Fields are merged by the names as they are spelled, and are listed by their plain names.  A raw identifier and
the identifier that it marks are spelled apart but have one plain name, and no two other words do.

* `plainFieldName_eq_iff` — which words have one plain name.
* `nodup_map_plainFieldName_iff` — when distinct words have distinct plain names.
* `field_names_distinct_iff` — the names in the file of a model.
-/

namespace ModelPool

open Text Source

/-! ## Names without their mark -/

/-- **A raw identifier has the name of the identifier that it marks.** -/
theorem plainFieldName_raw (name : String) : plainFieldName ("r#" ++ name) = plainFieldName name := by
  have hlist : ("r#" ++ name).toList = 'r' :: '#' :: name.toList := by simp
  rw [plainFieldName, hlist, plainFieldName.strip, plainFieldName]

/-- A text without the mark is left as it is. -/
theorem strip_eq_self {cs : List Char} (h : '#' ∉ cs) : plainFieldName.strip cs = cs := by
  have hother : ∀ r, cs = 'r' :: '#' :: r → False := by
    rintro r rfl
    exact h (by simp)
  exact plainFieldName.strip.eq_2 _ hother

/-- **A word loses one mark at most.** -/
theorem plainFieldName_cases {name : String} (h : isWord name.toList = true) :
    name = plainFieldName name ∨ name = "r#" ++ plainFieldName name := by
  have htail : ∀ {c : Char} {r : List Char}, (isWordStart c && r.all isIdentifierTail) = true → '#' ∉ c :: r := by
    intro c r hcr hmem
    obtain ⟨hc, hr⟩ := Bool.and_eq_true_iff.1 hcr
    rcases List.mem_cons.1 hmem with rfl | hmem
    · exact absurd hc (by decide)
    · exact absurd (List.all_eq_true.1 hr _ hmem) (by decide)
  unfold isWord at h
  split at h
  · next c r hname =>
    right
    have hraw : name = "r#" ++ String.ofList (c :: r) := by
      rw [← String.toList_inj, hname]
      simp
    have hplain : plainFieldName name = String.ofList (c :: r) := by
      rw [plainFieldName, hname, plainFieldName.strip, strip_eq_self (htail h)]
    rw [hplain, hraw]
  · next c r _ hname =>
    left
    rw [plainFieldName, hname, strip_eq_self (htail h), ← hname, String.ofList_toList]
  · exact absurd h (by decide)

/-- **Two words name one field** exactly if they are one but for a mark. -/
theorem plainFieldName_eq_iff {a b : String} (ha : isWord a.toList = true) (hb : isWord b.toList = true) :
    plainFieldName a = plainFieldName b ↔ a = b ∨ a = "r#" ++ b ∨ b = "r#" ++ a := by
  constructor
  · intro h
    rcases plainFieldName_cases ha with ha | ha <;> rcases plainFieldName_cases hb with hb | hb
    · exact .inl (ha.trans (h.trans hb.symm))
    · exact .inr (.inr (hb.trans (by rw [← h, ← ha])))
    · exact .inr (.inl (ha.trans (by rw [h, ← hb])))
    · exact .inl (ha.trans (h ▸ hb.symm))
  · rintro (rfl | rfl | rfl)
    · rfl
    · exact plainFieldName_raw b
    · exact (plainFieldName_raw a).symm

/-- A mark makes another name. -/
theorem raw_ne (name : String) : "r#" ++ name ≠ name := by
  intro h
  have hlength := congrArg (fun s => s.toList.length) h
  simp only [String.toList_append, List.length_append] at hlength
  have hmark : "r#".toList.length = 2 := rfl
  omega

/-- **Distinct words name distinct fields** exactly if none of them is another one with the mark. -/
theorem nodup_map_plainFieldName_iff {names : List String} (hwords : ∀ n ∈ names, isWord n.toList = true)
    (hnodup : names.Nodup) :
    (names.map plainFieldName).Nodup ↔ ∀ n ∈ names, "r#" ++ n ∉ names := by
  constructor
  · intro h n hn hraw
    exact raw_ne n (List.inj_on_of_nodup_map h hraw hn (plainFieldName_raw n))
  · intro h
    refine hnodup.map_on fun a ha b hb heq => ?_
    rcases (plainFieldName_eq_iff (hwords a ha) (hwords b hb)).1 heq with rfl | rfl | rfl
    · rfl
    · exact absurd ha (h b hb)
    · exact absurd hb (h a ha)

/-! ## The fields of a model -/

namespace Program

variable {t : FileTree} {roots : SourceRoots} {imports : ImportSet} {mode : LoadMode} {p : Program}
  {pool poolName : String} {models : List MergedModel} {m : MergedModel}

/-- **The names of the fields that the structs of a model declare**, as they are spelled. -/
def declaredNames (p : Program) (pool model : String) : List String :=
  (p.structsOf pool model).flatMap fun x => x.item.structFields.withNames.map Field.name

/-- A model has the fields that are declared, each spelling once. -/
theorem fieldNames_of_merge (h : load t roots imports mode = .ok p) (hmodels : p.merge pool = .ok models)
    (hm : m ∈ models) : m.fields.map MergedField.name = (p.declaredNames pool m.name).eraseDups := by
  rw [((merge_collects h hmodels).2.2 m hm).1, declaredNames, List.map_flatMap]
  simp only [ModelStruct.fields, List.map_map, Function.comp_def]

/-- **The plain names of the fields are distinct** exactly if no field is declared with the mark of a raw
identifier and without it. -/
theorem nodup_plainFieldNames_iff (h : load t roots imports mode = .ok p)
    (hmodels : p.merge pool = .ok models) (hm : m ∈ models) :
    (m.fields.map fun f => plainFieldName f.name).Nodup ↔
      ∀ n ∈ p.declaredNames pool m.name, "r#" ++ n ∉ p.declaredNames pool m.name := by
  have hnames := fieldNames_of_merge h hmodels hm
  have hwords : ∀ n ∈ m.fields.map MergedField.name, isWord n.toList = true := by
    intro n hn
    obtain ⟨f, hf, rfl⟩ := List.mem_map.1 hn
    exact (isNamed_of_merge h hmodels hm).fieldNames f hf
  have hspelled : (m.fields.map MergedField.name).Nodup := by
    rw [hnames]
    exact nodup_eraseDups _
  have hplain : (m.fields.map fun f => plainFieldName f.name) =
      (m.fields.map MergedField.name).map plainFieldName := by
    rw [List.map_map]
    rfl
  rw [hplain, nodup_map_plainFieldName_iff hwords hspelled, hnames]
  simp only [List.mem_eraseDups]

/-- **The names of fields are distinct as they are spelled, and their plain names are if no field is declared
both with the mark of a raw identifier and without it.**

Where the sources of a pool can be made, each model has the field names that its structs declare, each spelling
once and in the order of first occurrence; such a name is the plain name of the field, or this behind the mark.
The file of the model has a struct with these fields and behind it the constants, which list their plain names in
the same order.  If nothing in the model leaves its place, this is what the file reads as: one struct with the
fields as they are spelled, and for the texts in quotes the name of the model and the plain names. -/
theorem field_names_distinct_iff {names : List String} {sources : List (String × String)}
    (h : load t roots imports mode = .ok p) (hsources : poolSources pool poolName p = .ok (names, sources)) :
    ∃ models, p.merge pool = .ok models ∧ ∀ m ∈ models,
      m.fields.map MergedField.name = (p.declaredNames pool m.name).eraseDups ∧
      (∀ f ∈ m.fields, f.name = plainFieldName f.name ∨ f.name = "r#" ++ plainFieldName f.name) ∧
      ((m.fields.map fun f => plainFieldName f.name).Nodup ↔
        ∀ n ∈ p.declaredNames pool m.name, "r#" ++ n ∉ p.declaredNames pool m.name) ∧
      ∃ text, (modelFile m.name, text) ∈ sources ∧
        (∃ (front : String) (fields : List (MergedField × String)),
          text = front ++ Emitter.structLines m fields ++ "\n" ++ Emitter.implLines m ∧
            fields.map Prod.fst = m.fields) ∧
        (isWord poolName.toList = true → (Emitter.ofModels pool poolName models).Contains m →
          (∃ i gs, (SourceUnit.ofText text).items = [i] ∧ i.kind = .struct (.named gs) ∧
            gs.map Field.name = m.fields.map MergedField.name) ∧
          Emitter.quotedTexts text =
            (m.name :: m.fields.map fun f => plainFieldName f.name).map fun n => "\"" ++ n ++ "\"") := by
  obtain ⟨models, files, hmodels, -⟩ := exists_models_of_poolSources hsources
  refine ⟨models, hmodels, fun m hm => ?_⟩
  have hnamed := isNamed_of_merge h hmodels hm
  obtain ⟨text, hsource, htext⟩ := exists_text_of_model hmodels hsources hm
  refine ⟨fieldNames_of_merge h hmodels hm, fun f hf => plainFieldName_cases (hnamed.fieldNames f hf),
    nodup_plainFieldNames_iff h hmodels hm, text, hsource, ?_, fun hpool hcontains => ⟨?_, ?_⟩⟩
  · refine ⟨_, _, Emitter.model_eq_text htext, ?_⟩
    simp [Emitter.expressions, Function.comp_def]
  · obtain ⟨gs, line, hgs, hitems⟩ := (hcontains.declares hnamed hpool htext).item
    refine ⟨_, gs, hitems, rfl, ?_⟩
    have hread := congrArg (List.map Prod.fst) hgs
    rw [List.map_map, List.map_map, Emitter.expressions, List.map_map] at hread
    exact hread
  · rw [Emitter.model_eq_text htext]
    exact (hcontains.isPlain hnamed hpool).quotedTexts

/-- A model with a field that is spelled with the mark of a raw identifier. -/
def markedTree : FileTree :=
  .ofTexts [(["a", "x.rs"], "#[model]\npub struct A \x7b pub r#type: u8, pub x: u8 \x7d")]

/-- The model that is made of it. -/
def markedModel : MergedModel :=
  ⟨"A", [], ["a"], [⟨"r#type", .path (.builtin "u8") [], [], "a"⟩, ⟨"x", .path (.builtin "u8") [], [], "a"⟩]⟩

/-- Its plain names are distinct. -/
theorem field_names_distinct_marked : ∃ p sources,
    load markedTree rootOnly ⟨["a"]⟩ .tolerant = .ok p ∧
      poolSources "pool" "pool" p = .ok (["A"], sources) ∧
      (markedModel.fields.map fun f => plainFieldName f.name).Nodup ∧
      ∃ text, (modelFile "A", text) ∈ sources ∧ (∃ i gs, (SourceUnit.ofText text).items = [i] ∧
        i.kind = .struct (.named gs) ∧ gs.map Field.name = ["r#type", "x"]) ∧
        Emitter.quotedTexts text = ["\"A\"", "\"type\"", "\"x\""] := by
  obtain ⟨p, hp, hmodels, hdeclared⟩ : ∃ p, load markedTree rootOnly ⟨["a"]⟩ .tolerant = .ok p ∧
      p.merge "pool" = .ok [markedModel] ∧
      ∀ n ∈ p.declaredNames "pool" "A", "r#" ++ n ∉ p.declaredNames "pool" "A" :=
    exists_load (by simp) (by decide +kernel)
  have hcontains : (Emitter.ofModels "pool" "pool" [markedModel]).Contains markedModel := by decide +kernel
  have hok : (Emitter.ofModels "pool" "pool" [markedModel]).files.isOk = true := by decide +kernel
  obtain ⟨sources, hsources⟩ := exists_poolSources_of_isOk hmodels hok
  obtain ⟨models, hmodels', heach⟩ := field_names_distinct_iff hp hsources
  obtain rfl : [markedModel] = models := Except.ok.inj (hmodels.symm.trans hmodels')
  obtain ⟨-, -, hnodup, text, htext, -, hread⟩ := heach markedModel List.mem_cons_self
  obtain ⟨hstruct, hquoted⟩ := hread (by decide) hcontains
  have hnames : markedModel.fields.map (fun f => plainFieldName f.name) = ["type", "x"] := by decide
  rw [hnames] at hquoted
  exact ⟨p, sources, hp, hsources, hnodup.2 hdeclared, text, htext, hstruct, hquoted⟩

/-! ## A field with two spellings -/

/-- Two packages that declare a field of one model, one of them with the mark. -/
def respelledTree : FileTree :=
  .ofTexts [(["a", "x.rs"], "use b;\n#[model]\npub struct A \x7b pub r#x: u8 \x7d"),
    (["b", "x.rs"], "#[model]\npub struct A { pub x: u8 }")]

/-- The model that is made of them. -/
def respelledModel : MergedModel :=
  ⟨"A", [], ["b", "a"], [⟨"x", .path (.builtin "u8") [], [], "b"⟩, ⟨"r#x", .path (.builtin "u8") [], [], "a"⟩]⟩

/-- **Not all field names are distinct**: a field that one package spells with the mark and another one without it
is kept twice, and listed twice by its plain name. -/
theorem not_forall_field_names_distinct : ¬ ∀ (t : FileTree) (roots : SourceRoots) (imports : ImportSet)
    (mode : LoadMode) (p : Program) (pool poolName : String) (names : List String)
    (sources : List (String × String)), load t roots imports mode = .ok p →
      poolSources pool poolName p = .ok (names, sources) → ∀ models, p.merge pool = .ok models →
        ∀ m ∈ models, (m.fields.map fun f => plainFieldName f.name).Nodup := by
  intro hall
  obtain ⟨p, hp, hmodels⟩ : ∃ p, load respelledTree rootOnly ⟨["a"]⟩ .tolerant = .ok p ∧
      p.merge "pool" = .ok [respelledModel] :=
    exists_load (by simp) (by decide +kernel)
  have hok : (Emitter.ofModels "pool" "pool" [respelledModel]).files.isOk = true := by decide +kernel
  obtain ⟨sources, hsources⟩ := exists_poolSources_of_isOk hmodels hok
  have hnodup := hall _ _ _ _ p _ _ _ _ hp hsources _ hmodels respelledModel List.mem_cons_self
  exact absurd hnodup (by decide)

end Program

end ModelPool
