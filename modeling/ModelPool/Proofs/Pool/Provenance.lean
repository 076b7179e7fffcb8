import ModelPool.Proofs.Check.Origins
import ModelPool.Proofs.Pool.Collecting
import ModelPool.Proofs.Pool.Writing

/-!
# Proofs/Pool/Provenance — what models owe to the sources they were read from

Whatever stands in a model was read from a source: the names of the model and of its fields are words, the
lines of its documentation have no blanks at their ends, and some package has contributed to it.

* `isNamed_of_merge` — the law for the models of a program.
* `exists_struct_of_field`, `isGrounded_of_merge` — where a field and its type come from.
-/

namespace ModelPool

open Text Source

/-- **A model with words for its names**, whose documentation has no blanks at the ends of its lines, and
which some package has contributed to. -/
structure MergedModel.IsNamed (m : MergedModel) : Prop where
  name : isWord m.name.toList = true
  packages : m.packages ≠ []
  docs : ∀ line ∈ m.docs, IsTrimmedEnd line
  fieldNames : ∀ f ∈ m.fields, isWord f.name.toList = true
  fieldDocs : ∀ f ∈ m.fields, ∀ line ∈ f.docs, IsTrimmedEnd line

/-- A line of joint documentation is empty or stands in one of the parts. -/
theorem MergedModel.mem_jointDocs {parts : List (List String)} {line : String} (h : line ∈ MergedModel.jointDocs parts) :
    line = "" ∨ ∃ part ∈ parts, line ∈ part := by
  have hjoined : ∀ parts : List (List String), line ∈ [""].intercalate parts →
      line = "" ∨ ∃ part ∈ parts, line ∈ part := by
    intro parts
    induction parts with
    | nil => simp [List.intercalate]
    | cons part r ih =>
      cases r with
      | nil =>
        intro hline
        exact .inr ⟨part, List.mem_cons_self, by simpa [List.intercalate] using hline⟩
      | cons next r =>
        intro hline
        have hcons : [""].intercalate (part :: next :: r) = part ++ "" :: [""].intercalate (next :: r) := by
          simp [List.intercalate]
        rw [hcons, List.mem_append, List.mem_cons] at hline
        rcases hline with hline | rfl | hline
        · exact .inr ⟨part, List.mem_cons_self, hline⟩
        · exact .inl rfl
        · exact (ih hline).imp_right fun ⟨p, hp, hmem⟩ => ⟨p, List.mem_cons_of_mem _ hp, hmem⟩
  refine (hjoined _ h).imp_right ?_
  rintro ⟨part, hpart, hline⟩
  exact ⟨part, (List.mem_filter.1 hpart).1, hline⟩

namespace Program

variable {t : FileTree} {roots : SourceRoots} {imports : ImportSet} {mode : LoadMode} {p : Program}
  {pool : String} {models : List MergedModel} {m : MergedModel}

/-- The struct that contributes stands in a source that was read. -/
theorem Contributed.exists_source {path : String} {f : SourceFile} {i : Item}
    (h : Contributed (walkOf t roots imports).loaded pool path f i) :
    ∃ cs fs, i ∈ (SourceUnit.ofCharacters cs).items ∧ i.kind = .struct fs := by
  obtain ⟨-, ⟨info, hinfo, hf⟩, hi⟩ := h
  obtain ⟨⟨dir, -, hread⟩, -⟩ := mem_loaded_iff.1 hinfo
  obtain ⟨cs, hcs⟩ := PackageInfo.exists_ofCharacters_of_read hread hf
  obtain ⟨hitem, hmodel⟩ := List.mem_filter.1 hi
  obtain ⟨fs, hkind⟩ := Item.exists_struct hmodel
  exact ⟨cs, fs, hcs ▸ hitem, hkind⟩

/-- **Where a field and its type come from**: a struct without type parameters declares it, and its targets
are those of the paths in the struct. -/
theorem exists_struct_of_field (h : load t roots imports mode = .ok p)
    (hmodels : p.merge pool = .ok models) (hm : m ∈ models) {f : MergedField} (hf : f ∈ m.fields) :
    ∃ path file i, Contributed (walkOf t roots imports).loaded pool path file i ∧ i.generics = [] ∧
      ∃ x ∈ i.structFields.withNames, f.name = x.name ∧ f.docs = x.docs ∧
        f.type = x.type.map ((fileCheck t roots imports path file).target []) := by
  have hdeclared := List.mem_of_find?_eq_some
    (((collect_mergeFragments hmodels).each m hm).fields.first f hf)
  obtain ⟨⟨path, fragment⟩, hfragment, hfield⟩ := List.mem_flatMap.1 hdeclared
  obtain ⟨y, hy, rfl⟩ := List.mem_map.1 hfield
  have hcontribution := (List.mem_filter.1 hfragment).1
  have hmergeable := (mergeFragments_isOk_iff.1 ⟨_, hmodels⟩).1 _ hcontribution
  obtain ⟨file, i, hi, rfl⟩ := (mem_contributions h).1 hcontribution
  have hgenerics : i.generics = [] := hmergeable.generics
  obtain ⟨x, hx, rfl⟩ := List.mem_map.1 hy
  refine ⟨path, file, i, hi, hgenerics, x, hx, rfl, rfl, ?_⟩
  rw [← hgenerics]
  rfl

/-- **The targets of a field** are such as paths stand for in a struct without type parameters. -/
theorem isGrounded_of_merge (h : load t roots imports mode = .ok p)
    (hmodels : p.merge pool = .ok models) (hm : m ∈ models) {f : MergedField} (hf : f ∈ m.fields)
    {target : TypeTarget} (htarget : target ∈ ResolvedType.targets f.type) :
    target.IsGrounded (surroundingsOf t roots imports) [] := by
  obtain ⟨path, file, i, -, -, x, -, -, -, htype⟩ := exists_struct_of_field h hmodels hm hf
  rw [htype, ResolvedType.targets, Ty.names_map] at htarget
  obtain ⟨names, -, rfl⟩ := List.mem_map.1 htarget
  exact Scope.isGrounded_resolvePath isOrderly_surroundingsOf

/-- **The models of a program are named by words**, and documented by trimmed lines. -/
theorem isNamed_of_merge (h : load t roots imports mode = .ok p)
    (hmodels : p.merge pool = .ok models) (hm : m ∈ models) : m.IsNamed := by
  have hcollects := (collect_mergeFragments hmodels).each m hm
  have hfield : ∀ f ∈ m.fields, isWord f.name.toList = true ∧ ∀ line ∈ f.docs, IsTrimmedEnd line := by
    intro f hf
    obtain ⟨path, file, i, hi, -, x, hx, hname, hdocs, -⟩ := exists_struct_of_field h hmodels hm hf
    obtain ⟨cs, fs, hitem, hkind⟩ := hi.exists_source
    rw [Item.structFields, hkind] at hx
    cases fs with
    | named gs =>
      have hnamed := SourceUnit.isNamed_of_mem_items hitem hkind x hx
      rw [hname, hdocs]
      exact ⟨hnamed.name, hnamed.docs⟩
    | tuple types => exact absurd hx List.not_mem_nil
    | unit => exact absurd hx List.not_mem_nil
  refine ⟨isWord_of_merge h hmodels hm, ?_, ?_, fun f hf => (hfield f hf).1,
    fun f hf => (hfield f hf).2⟩
  · obtain ⟨x, hx, hname⟩ := (mem_names_of_mergeFragments hmodels).1 (List.mem_map_of_mem hm)
    have hmem : x.1 ∈ m.packages := by
      rw [hcollects.packages, List.mem_eraseDups]
      exact List.mem_map_of_mem (List.mem_filter.2 ⟨hx, by simpa using hname⟩)
    exact List.ne_nil_of_mem hmem
  · intro line hline
    rw [hcollects.docs] at hline
    rcases MergedModel.mem_jointDocs hline with rfl | ⟨part, hpart, hline⟩
    · exact rfl
    · obtain ⟨⟨path, fragment⟩, hfragment, rfl⟩ := List.mem_map.1 hpart
      obtain ⟨file, i, hi, rfl⟩ := (mem_contributions h).1 (List.mem_filter.1 hfragment).1
      obtain ⟨cs, fs, hitem, -⟩ := hi.exists_source
      exact SourceUnit.isTrimmedEnd_of_mem_items hitem line hline

end Program

end ModelPool
