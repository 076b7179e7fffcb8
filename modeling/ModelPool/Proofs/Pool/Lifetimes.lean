import ModelPool.Proofs.Load.Counted
import ModelPool.Proofs.Pool.Refusals
import ModelPool.Proofs.Pool.Rendering
import ModelPool.Proofs.Source.ParameterReading

/-!
# Proofs/Pool/Lifetimes — the lifetimes in the fields of a pool

    #[model] pub struct A<'a> { pub x: &'a str }     read as a struct A without parameters
    pub struct A { pub x: &'a str }                  written for it

A model is refused as generic by the names that are kept of its parameters, and no lifetimes are among these.
So a model with a lifetime for its parameter is put together like any other, its fields keep the lifetime, and
the struct that is written for it has no parameter that declares it.

* `Ty.lifetimes` — the lifetimes of the references in a type.
* `merge_eq_genericModel_iff` — which model structs are refused as generic.
* `isStatic_merge_iff` — when the fields of the models have no lifetime but `static`.
* `merge_keeps_lifetimes` — the lifetimes in the sources, the models and what is written.
-/

namespace ModelPool

open Text Source

/-! ## The lifetimes of a type -/

namespace Ty

variable {ρ σ : Type}

mutual

/-- **The lifetimes of the references in a type**, outermost first.  What is kept as text is not looked
into. -/
def lifetimes : Ty ρ → List String
  | path _ args => lifetimesAll args
  | reference lifetime _ inner => lifetime.toList ++ lifetimes inner
  | slice element => lifetimes element
  | array element _ => lifetimes element
  | tuple elements => lifetimesAll elements
  | traitObject _ bound => lifetimes bound
  | verbatim _ => []

/-- Those of several types. -/
def lifetimesAll : List (Ty ρ) → List String
  | [] => []
  | t :: r => lifetimes t ++ lifetimesAll r

end

mutual

/-- **A change of the names leaves the lifetimes as they are.** -/
theorem lifetimes_map (f : ρ → σ) : ∀ t : Ty ρ, (t.map f).lifetimes = t.lifetimes
  | path _ args => by simp [map, lifetimes, lifetimesAll_mapAll f args]
  | reference _ _ inner => by simp [map, lifetimes, lifetimes_map f inner]
  | slice element => by simp [map, lifetimes, lifetimes_map f element]
  | array element _ => by simp [map, lifetimes, lifetimes_map f element]
  | tuple elements => by simp [map, lifetimes, lifetimesAll_mapAll f elements]
  | traitObject _ bound => by simp [map, lifetimes, lifetimes_map f bound]
  | verbatim _ => by simp [map, lifetimes]

theorem lifetimesAll_mapAll (f : ρ → σ) :
    ∀ ts : List (Ty ρ), lifetimesAll (mapAll f ts) = lifetimesAll ts
  | [] => by simp [mapAll, lifetimesAll]
  | t :: r => by simp [mapAll, lifetimesAll, lifetimes_map f t, lifetimesAll_mapAll f r]

end

/-- **No reference in the type has a lifetime but `static`.** -/
def IsStatic (t : Ty ρ) : Prop := ∀ l ∈ t.lifetimes, l = "static"

instance (t : Ty ρ) : Decidable t.IsStatic := inferInstanceAs (Decidable (∀ l ∈ t.lifetimes, l = "static"))

end Ty

/-! ## Generic fragments -/

/-- A fragment is refused as generic by the names that are kept of its parameters. -/
theorem ModelFragment.check_eq_genericModel_iff {f : ModelFragment} {package name owner : String} :
    f.check package = .error (.genericModel name owner) ↔
      f.generics ≠ [] ∧ f.name = name ∧ package = owner := by
  unfold ModelFragment.check
  split
  · next hgenerics =>
    have hne : f.generics ≠ [] := by simpa using hgenerics
    simp [hne]
  · next hgenerics =>
    have hnil : f.generics = [] := by simpa using hgenerics
    split <;> simp [hnil]

/-- What is merged already makes no difference for that. -/
theorem mergeFragment_eq_genericModel_iff {fs : List (String × ModelFragment)} {ms : List MergedModel}
    (h : mergeFragments fs = .ok ms) {f : String × ModelFragment} {name owner : String} :
    mergeFragment ms f = .error (.genericModel name owner) ↔
      f.2.generics ≠ [] ∧ f.2.name = name ∧ f.1 = owner := by
  rw [← ModelFragment.check_eq_genericModel_iff]
  refine ⟨fun hf => ?_, fun hf => bind_eq_error_iff.2 (.inl hf)⟩
  -- the fragment is valid otherwise, and then only a field can be refused, by another error
  have hone : [f].foldlM mergeFragment ms = .error (.genericModel name owner) :=
    bind_eq_error_iff.2 (.inl hf)
  rcases (collect_mergeFragments h).conflict_of_foldlM hone with ⟨g, hg, hcheck⟩ | ⟨model, x, y, -, he⟩
  · rwa [← List.mem_singleton.1 hg]
  · simp [conflictOf] at he

/-- **Fragments are refused as generic** at the first that is not put together, if names are kept of its
parameters. -/
theorem mergeFragments_eq_genericModel_iff {fs : List (String × ModelFragment)} {name owner : String} :
    mergeFragments fs = .error (.genericModel name owner) ↔
      ∃ before f after, fs = before ++ f :: after ∧ (∃ ms, mergeFragments before = .ok ms) ∧
        f.2.generics ≠ [] ∧ f.2.name = name ∧ f.1 = owner := by
  rw [mergeFragments, foldlM_eq_error_iff]
  constructor
  · rintro ⟨before, f, after, ms, rfl, hms, hf⟩
    exact ⟨before, f, after, rfl, ⟨ms, hms⟩, (mergeFragment_eq_genericModel_iff hms).1 hf⟩
  · rintro ⟨before, f, after, rfl, ⟨ms, hms⟩, hf⟩
    exact ⟨before, f, after, ms, rfl, hms, (mergeFragment_eq_genericModel_iff hms).2 hf⟩

namespace Program

section Merged

variable {t : FileTree} {roots : SourceRoots} {imports : ImportSet} {mode : LoadMode} {p : Program}
  {pool : String} {models : List MergedModel} {m : MergedModel}

/-- So are the model structs of a program. -/
theorem merge_eq_genericModel_iff (h : load t roots imports mode = .ok p) {name package : String} :
    p.merge pool = .error (.genericModel name package) ↔
      ∃ before x after, p.modelStructs pool = before ++ x :: after ∧
        (∃ ms, mergeFragments (before.map (fragmentOf t roots imports)) = .ok ms) ∧
        x.item.generics ≠ [] ∧ x.item.name = name ∧ x.package = package := by
  rw [merge, contributions_eq h, mergeFragments_eq_genericModel_iff]
  constructor
  · rintro ⟨before, f, after, heq, hms, hf⟩
    obtain ⟨xs, ys, hxs, rfl, hys⟩ := List.map_eq_append_iff.1 heq
    obtain ⟨x, zs, rfl, rfl, rfl⟩ := List.map_eq_cons_iff.1 hys
    exact ⟨xs, x, zs, hxs, hms, hf⟩
  · rintro ⟨before, x, after, heq, hms, hx⟩
    rw [heq, List.map_append, List.map_cons]
    exact ⟨_, _, _, rfl, hms, hx⟩

/-- The model structs that are put together have no parameters of which a name is kept. -/
theorem generics_of_merge (h : load t roots imports mode = .ok p) (hmodels : p.merge pool = .ok models)
    {x : ModelStruct} (hx : x ∈ p.modelStructs pool) : x.item.generics = [] := by
  rw [merge, contributions_eq h] at hmodels
  exact ((mergeFragments_isOk_iff.1 ⟨models, hmodels⟩).1 _ (List.mem_map_of_mem hx)).generics

/-- The declarations of the fields of a model are those of its structs. -/
theorem declaredIn_eq (h : load t roots imports mode = .ok p) (model : String) :
    p.declaredIn pool model =
      (p.structsOf pool model).flatMap (ModelStruct.fields t roots imports) := by
  rw [declaredIn, filter_contributions h, declaredFields_map_fragmentOf]

/-- **A model has the lifetimes of its structs**, field by field. -/
theorem lifetimes_of_merge (h : load t roots imports mode = .ok p) (hmodels : p.merge pool = .ok models)
    (hm : m ∈ models) :
    (∀ f ∈ m.fields, ∃ x ∈ p.structsOf pool m.name, ∃ y ∈ x.item.structFields.withNames,
      y.name = f.name ∧ y.type.lifetimes = f.type.lifetimes) ∧
    ∀ x ∈ p.structsOf pool m.name, ∀ y ∈ x.item.structFields.withNames, ∃ f ∈ m.fields,
      f.name = y.name ∧ f.type.lifetimes = y.type.lifetimes := by
  obtain ⟨hfirst, hall⟩ := kept_of_merge hmodels hm
  rw [declaredIn_eq h] at hfirst hall
  constructor
  · intro f hf
    obtain ⟨x, hx, hfx⟩ := List.mem_flatMap.1 (List.mem_of_find?_eq_some (hfirst.first f hf))
    obtain ⟨y, hy, rfl⟩ := List.mem_map.1 hfx
    exact ⟨x, hx, y, hy, rfl, (Ty.lifetimes_map _ _).symm⟩
  · intro x hx y hy
    obtain ⟨f, hf, hname, htype⟩ := hall _ (List.mem_flatMap.2 ⟨x, hx, List.mem_map_of_mem hy⟩)
    exact ⟨f, hf, hname, htype ▸ Ty.lifetimes_map _ _⟩

/-- Each model struct is put together to a model of its name. -/
theorem exists_model_of_struct (h : load t roots imports mode = .ok p)
    (hmodels : p.merge pool = .ok models) {x : ModelStruct} (hx : x ∈ p.modelStructs pool) :
    ∃ m ∈ models, x ∈ p.structsOf pool m.name := by
  have hname : x.item.name ∈ models.map MergedModel.name := by
    rw [(merge_collects h hmodels).2.1, List.mem_eraseDups]
    exact List.mem_map_of_mem hx
  obtain ⟨m, hm, hname⟩ := List.mem_map.1 hname
  exact ⟨m, hm, List.mem_filter.2 ⟨hx, by simpa using hname.symm⟩⟩

/-- **Models have no lifetime but `static` exactly if their structs have none.** -/
theorem isStatic_merge_iff (h : load t roots imports mode = .ok p) (hmodels : p.merge pool = .ok models) :
    (∀ m ∈ models, ∀ f ∈ m.fields, f.type.IsStatic) ↔
      ∀ x ∈ p.modelStructs pool, ∀ y ∈ x.item.structFields.withNames, y.type.IsStatic := by
  constructor
  · intro hall x hx y hy
    obtain ⟨m, hm, hxm⟩ := exists_model_of_struct h hmodels hx
    obtain ⟨f, hf, -, hlifetimes⟩ := (lifetimes_of_merge h hmodels hm).2 x hxm y hy
    rw [Ty.IsStatic, ← hlifetimes]
    exact hall m hm f hf
  · intro hall m hm f hf
    obtain ⟨x, hx, y, hy, -, hlifetimes⟩ := (lifetimes_of_merge h hmodels hm).1 f hf
    rw [Ty.IsStatic, ← hlifetimes]
    exact hall x (List.mem_of_mem_filter hx) y hy

end Merged

/-! ## What is written -/

end Program

/-- The fields of a model with their lifetimes. -/
def MergedModel.lifetimes (m : MergedModel) : List (String × List String) :=
  m.fields.map fun f => (f.name, f.type.lifetimes)

namespace Emitter

variable {e : Emitter} {m : MergedModel}

/-- The types that are written for the fields have their lifetimes. -/
theorem lifetimes_expressions (e : Emitter) (m : MergedModel) :
    (e.expressions m).map (fun f => (f.1, f.2.lifetimes)) = m.fields.map fun f => (f, f.type.lifetimes) := by
  rw [expressions, List.map_map]
  exact List.map_congr_left fun f _ => congrArg (Prod.mk f) (Ty.lifetimes_map _ _)

/-- **What is written for a model** is read as a struct without parameters, with the lifetimes of the model. -/
theorem Declares.lifetimes {u : SourceUnit} (h : e.Declares m (e.expressions m) u) :
    ∃ i gs, u.items = [i] ∧ i.name = m.name ∧ i.generics = [] ∧ i.kind = .struct (.named gs) ∧
      gs.map (fun g => (g.name, g.type.lifetimes)) = m.lifetimes := by
  obtain ⟨gs, line, hgs, hitems⟩ := h.item
  have hread := congrArg (List.map fun c => (c.1, c.2.1.lifetimes)) hgs
  have hwritten := congrArg (List.map fun f => (f.1.name, f.2)) (lifetimes_expressions e m)
  rw [List.map_map, List.map_map] at hread hwritten
  exact ⟨_, gs, hitems, rfl, rfl, rfl, hread.trans hwritten⟩

end Emitter

namespace Program

variable {t : FileTree} {roots : SourceRoots} {imports : ImportSet} {mode : LoadMode} {p : Program}

/-- **Models keep the lifetimes that are declared**, and are generic only by parameters that are no lifetimes.

A struct is read with the names of those parameters that are types; a lifetime leaves none.  A model struct is
refused as generic exactly if it has such names and those before it go together.  Where the sources of the pool
can be made, no model struct has such names, and the references in the models have no lifetime but `static`
exactly if those in the model structs have none: each field of a model has the lifetimes of its declarations.
The file of a model has a struct without parameters, and the types that are written there have the lifetimes of
the fields; if nothing in the model leaves its place, this is what is read from it. -/
theorem merge_keeps_lifetimes (h : load t roots imports mode = .ok p) (pool poolName : String) :
    (∀ (q : Parameter) qs N n (heading : Heading) space name fs indent ls, (∀ x ∈ q :: qs, x.IsPlain) →
      (∀ f ∈ fs, IsWritten f) → qs.length + 2 < n → 8 * (fs.flatMap (fieldLexemes indent)).length < n →
      Finds N (Reader.struct n heading)
        (Lexeme.ofName space "struct" :: Lexeme.ofName [' '] name :: (Parameter.bracketedLexemes q qs ++
          Lexeme.sign [' '] '\x7b' :: (fs.flatMap (fieldLexemes indent) ++ Lexeme.sign ['\n'] '\x7d' :: ls)))
        (fun s => ∃ gs : List Field, gs.map Field.content = fs ∧
          s = heading.item name ((q :: qs).filterMap Parameter.typeName?) (.struct (.named gs))) ls) ∧
    (∀ name package, p.merge pool = .error (.genericModel name package) ↔
      ∃ before x after, p.modelStructs pool = before ++ x :: after ∧
        (∃ ms, mergeFragments (before.map (fragmentOf t roots imports)) = .ok ms) ∧
        x.item.generics ≠ [] ∧ x.item.name = name ∧ x.package = package) ∧
    ∀ names sources, poolSources pool poolName p = .ok (names, sources) →
      ∃ models, p.merge pool = .ok models ∧ (∀ x ∈ p.modelStructs pool, x.item.generics = []) ∧
        ((∀ m ∈ models, ∀ f ∈ m.fields, f.type.IsStatic) ↔
          ∀ x ∈ p.modelStructs pool, ∀ y ∈ x.item.structFields.withNames, y.type.IsStatic) ∧
        ∀ m ∈ models,
          (∀ f ∈ m.fields, ∃ x ∈ p.structsOf pool m.name, ∃ y ∈ x.item.structFields.withNames,
            y.name = f.name ∧ y.type.lifetimes = f.type.lifetimes) ∧
          (∀ x ∈ p.structsOf pool m.name, ∀ y ∈ x.item.structFields.withNames, ∃ f ∈ m.fields,
            f.name = y.name ∧ f.type.lifetimes = y.type.lifetimes) ∧
          ∃ text, (modelFile m.name, text) ∈ sources ∧
            (∃ (front : String) (fields : List (MergedField × TypeExpr)),
              text = front ++ Emitter.structLines m (fields.map fun f => (f.1, f.2.text)) ++ "\n" ++
                Emitter.implLines m ∧
              fields.map (fun f => (f.1, f.2.lifetimes)) = m.fields.map fun f => (f, f.type.lifetimes)) ∧
            (isWord poolName.toList = true → (Emitter.ofModels pool poolName models).Contains m →
              ∃ i gs, (SourceUnit.ofText text).items = [i] ∧ i.name = m.name ∧ i.generics = [] ∧
                i.kind = .struct (.named gs) ∧
                gs.map (fun g => (g.name, g.type.lifetimes)) = m.lifetimes) := by
  refine ⟨fun q qs N n heading space name fs indent ls hqs hfs hlength hn =>
    Reader.finds_struct_bracketed hqs hfs hlength hn, fun name package => merge_eq_genericModel_iff h,
    fun names sources hsources => ?_⟩
  obtain ⟨models, files, hmodels, -⟩ := exists_models_of_poolSources hsources
  refine ⟨models, hmodels, fun x hx => generics_of_merge h hmodels hx, isStatic_merge_iff h hmodels,
    fun m hm => ?_⟩
  obtain ⟨hdeclared, hkept⟩ := lifetimes_of_merge h hmodels hm
  obtain ⟨text, hsource, htext⟩ := exists_text_of_model hmodels hsources hm
  refine ⟨hdeclared, hkept, text, hsource, ?_, fun hpool hcontains => ?_⟩
  · exact ⟨_, _, Emitter.model_eq_text htext, Emitter.lifetimes_expressions _ m⟩
  · exact (hcontains.declares (isNamed_of_merge h hmodels hm) hpool htext).lifetimes

/-! ## A model that borrows -/

/-- A model with a lifetime for its parameter. -/
def borrowingTree : FileTree :=
  .ofTexts [(["a", "x.rs"], "#[model]\npub struct A<'a> \x7b pub x: &'a str \x7d")]

/-- The model that is made of it. -/
def borrowingModel : MergedModel :=
  ⟨"A", [], ["a"], [⟨"x", .reference (some "a") false (.path (.builtin "str") []), [], "a"⟩]⟩

theorem exists_borrowing_program : ∃ p, load borrowingTree rootOnly ⟨["a"]⟩ .tolerant = .ok p ∧
    p.merge "pool" = .ok [borrowingModel] ∧
    ∃ sources, poolSources "pool" "pool" p = .ok (["A"], sources) := by
  obtain ⟨p, hp, hmodels⟩ : ∃ p, load borrowingTree rootOnly ⟨["a"]⟩ .tolerant = .ok p ∧
      p.merge "pool" = .ok [borrowingModel] :=
    exists_load (by simp) (by decide +kernel)
  have hok : (Emitter.ofModels "pool" "pool" [borrowingModel]).files.isOk = true := by decide +kernel
  exact ⟨p, hp, hmodels, exists_poolSources_of_isOk hmodels hok⟩

/-- The struct that is written has no parameter, and its field has the lifetime. -/
theorem merge_keeps_lifetimes_borrowing : ∃ p sources,
    load borrowingTree rootOnly ⟨["a"]⟩ .tolerant = .ok p ∧
      poolSources "pool" "pool" p = .ok (["A"], sources) ∧
      (∀ x ∈ p.modelStructs "pool", x.item.generics = []) ∧
      ∃ text, (modelFile "A", text) ∈ sources ∧ ∃ i gs, (SourceUnit.ofText text).items = [i] ∧
        i.name = "A" ∧ i.generics = [] ∧ i.kind = .struct (.named gs) ∧
        gs.map (fun g => (g.name, g.type.lifetimes)) = [("x", ["a"])] := by
  obtain ⟨p, hp, hmodels, sources, hsources⟩ := exists_borrowing_program
  have hcontains : (Emitter.ofModels "pool" "pool" [borrowingModel]).Contains borrowingModel := by
    decide +kernel
  obtain ⟨models, hmodels', hgenerics, -, heach⟩ :=
    (merge_keeps_lifetimes hp "pool" "pool").2.2 _ _ hsources
  obtain rfl : [borrowingModel] = models := Except.ok.inj (hmodels.symm.trans hmodels')
  obtain ⟨-, -, text, hsource, -, hread⟩ := heach borrowingModel List.mem_cons_self
  exact ⟨p, sources, hp, hsources, hgenerics, text, hsource, hread (by decide) hcontains⟩

/-- **Not every pool is without lifetimes**: neither is a model with a lifetime for its parameter refused as
generic, nor has every reference in a model the lifetime `static`. -/
theorem not_forall_isStatic :
    (¬ ∀ (t : FileTree) (roots : SourceRoots) (imports : ImportSet) (mode : LoadMode) (p : Program)
      (pool poolName : String) (names : List String) (sources : List (String × String)),
      load t roots imports mode = .ok p → poolSources pool poolName p = .ok (names, sources) →
        ∀ models, p.merge pool = .ok models → ∀ m ∈ models, ∀ f ∈ m.fields, f.type.IsStatic) ∧
    ¬ ∀ (t : FileTree) (roots : SourceRoots) (imports : ImportSet) (mode : LoadMode) (p : Program)
      (pool : String), load t roots imports mode = .ok p →
        (∃ x ∈ p.modelStructs pool, ∃ y ∈ x.item.structFields.withNames, ¬ y.type.IsStatic) →
        ∃ name package, p.merge pool = .error (.genericModel name package) := by
  obtain ⟨p, hp, hmodels, sources, hsources⟩ := exists_borrowing_program
  have hlifetime : ¬ ∀ m ∈ [borrowingModel], ∀ f ∈ m.fields, f.type.IsStatic := by decide +kernel
  constructor
  · intro hall
    exact hlifetime (hall _ _ _ _ p _ _ _ _ hp hsources _ hmodels)
  · intro hall
    rw [isStatic_merge_iff hp hmodels] at hlifetime
    push Not at hlifetime
    obtain ⟨name, package, herror⟩ := hall _ _ _ _ p _ hp hlifetime
    exact absurd (hmodels.symm.trans herror) (by simp)

end Program

end ModelPool
