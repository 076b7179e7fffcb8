import ModelPool.Proofs.Pool.Aliases
import ModelPool.Proofs.Types.Traversal

/-!
# Proofs/Pool/TypeWriting — types as they are written in a pool

    modules::sale::Order<Vec<pool::Partner>>    sale::Order<Vec<Partner>>    uses modules::sale

A type is written as it prints, but for its targets: a model of the pool is written by its bare name, and
what another package declares under the name of that package.  Writing stops at the first target for which
there is nothing to write, and otherwise adds the packages of the targets to those that are used.

* `Writes` — what a piece of writing does, and `Writes.bind` puts two together.
* `writes_type` — a type against the order of its targets and the way it prints.
* `writes_writtenFields` — the fields of a model.
-/

namespace ModelPool

/-! ## Pieces of writing -/

/-- **What a piece of writing does**: it fails if there is an error, and otherwise gives its result and
adds packages to those that are used. -/
def Writes {α : Type} (w : Writing α) (refused : Option SynthesisError) (result : α)
    (packages : List String) : Prop :=
  ∀ used, w.run used = refused.elim (.ok (result, used.insertMany packages)) .error

namespace Writes

variable {α β : Type} {w : Writing α} {f : α → Writing β} {refused refused' : Option SynthesisError}
  {a : α} {b : β} {packages packages' : List String}

theorem pure (a : α) : Writes (pure a) none a [] := fun used => by simp; rfl

/-- **One piece of writing behind another**: the error of the first counts, then that of the second. -/
theorem bind (h : Writes w refused a packages) (hf : Writes (f a) refused' b packages') :
    Writes (w >>= f) (refused.or refused') b (packages ++ packages') := by
  intro used
  rw [StateT.run_bind, h used]
  cases refused with
  | some e => rfl
  | none =>
    rw [Std.ExtTreeSet.insertMany_append]
    exact hf _

/-- What is made of a result. -/
theorem map (h : Writes w refused a packages) (g : α → β) :
    Writes (do return g (← w)) refused (g a) packages := by
  simpa using h.bind (f := fun a => Pure.pure (g a)) (.pure (g a))

end Writes

namespace Emitter

variable {e : Emitter} {model field : String}

/-! ## Targets -/

/-- **Why a target is not written**, for a field of a model: it stands for nothing, or for a model that the
pool does not have. -/
def refusal? (e : Emitter) (model field : String) : TypeTarget → Option SynthesisError
  | .unresolved path => some (.unresolvedType model field (pathText path))
  | .declared package name =>
    if package = e.pool ∧ name ∉ e.models.map MergedModel.name then
      some (.unknownModel model field name)
    else none
  | _ => none

/-- **What is written for a target**: its full name, but for models of the pool and for what other packages
declare. -/
def shown (e : Emitter) : TypeTarget → String
  | .declared package name =>
    if package = e.pool then name else e.aliasOf package ++ "::" ++ name
  | target => target.text

/-- The packages besides the pool that a list of targets lies in, in the order of the targets. -/
def outside (e : Emitter) (targets : List TypeTarget) : List String :=
  targets.filterMap (·.outsidePackage? e.pool)

theorem writes_target (target : TypeTarget) : Writes (e.target model field target)
    (e.refusal? model field target) (e.shown target) (e.outside [target]) := by
  cases target with
  | builtin name => exact .pure name
  | generic path => exact .pure path
  | external path => exact .pure (pathText path)
  | unresolved path => exact fun used => rfl
  | declared package name =>
    unfold target refusal? shown outside
    dsimp only
    have hany : e.models.any (·.name == name) = decide (name ∈ e.models.map MergedModel.name) := by
      rw [Bool.eq_iff_iff]
      simp
    by_cases hpool : package = e.pool
    · by_cases hname : name ∈ e.models.map MergedModel.name
      · simpa [hpool, hany, hname, TypeTarget.outsidePackage?] using .pure name
      · simp only [hpool, hany, hname, TypeTarget.outsidePackage?, if_true]
        exact fun used => rfl
    · have hpackages : [TypeTarget.declared package name].filterMap (·.outsidePackage? e.pool) =
          [package] := by simp [TypeTarget.outsidePackage?, hpool]
      rw [hpackages]
      simp only [hpool, if_false, false_and]
      exact fun used => rfl

/-- The targets of one piece of writing and of the one behind it, in their order. -/
theorem writes_append {α β : Type} {w : Writing α} {f : α → Writing β} {a : α} {b : β}
    {targets others : List TypeTarget}
    (h : Writes w (targets.findSome? (e.refusal? model field)) a (e.outside targets))
    (hf : Writes (f a) (others.findSome? (e.refusal? model field)) b (e.outside others)) :
    Writes (w >>= f) ((targets ++ others).findSome? (e.refusal? model field)) b
      (e.outside (targets ++ others)) := by
  rw [List.findSome?_append, outside, List.filterMap_append]
  exact h.bind hf

/-! ## Types -/

mutual

/-- **A type is written as it prints**, with `shown` for its targets.  The first target that is refused
decides the error. -/
theorem writes_type : ∀ t : ResolvedType, Writes (e.type model field t)
    (t.targets.findSome? (e.refusal? model field)) (t.render e.shown) (e.outside t.targets)
  | .path target args => by
    rw [type, Ty.render, ResolvedType.targets, Ty.names_path, ← List.singleton_append]
    refine writes_append (a := e.shown target) ?_ ?_
    · simpa using writes_target target
    · cases args with
      | nil => simpa [Ty.renderAll, Ty.bracketed, outside] using .pure (e.shown target)
      | cons t r =>
        have hargs := (writes_types (t :: r)).map fun texts =>
          e.shown target ++ "<" ++ ", ".intercalate texts ++ ">"
        rw [if_neg (by simp)]
        simpa [Ty.renderAll, Ty.bracketed, String.append_assoc] using hargs
  | .reference lifetime mutable inner => by
    have hinner := writes_type inner
    rw [type]
    cases lifetime <;> cases mutable <;> exact hinner.map fun text => _ ++ text
  | .slice element => by
    rw [type]
    exact (writes_type element).map fun text => "[" ++ text ++ "]"
  | .array element length => by
    rw [type]
    exact (writes_type element).map fun text => "[" ++ text ++ "; " ++ length ++ "]"
  | .tuple elements => by
    rw [type, ResolvedType.targets, Ty.names_tuple, Ty.render, ← List.append_nil (Ty.namesAll elements)]
    refine writes_append (writes_types elements) ?_
    rw [Ty.renderAll_eq_map]
    rcases elements with _ | ⟨t, _ | ⟨u, r⟩⟩
    · exact .pure _
    · simpa [Ty.parenthesized, outside, String.append_assoc] using .pure _
    · simpa [Ty.parenthesized, outside, String.append_assoc] using .pure _
  | .traitObject keyword bound => by
    rw [type]
    exact (writes_type bound).map fun text => keyword ++ " " ++ text
  | .verbatim text => by
    rw [type]
    exact .pure text

theorem writes_types : ∀ ts : List ResolvedType, Writes (e.types model field ts)
    ((Ty.namesAll ts).findSome? (e.refusal? model field)) (Ty.renderAll e.shown ts)
    (e.outside (Ty.namesAll ts))
  | [] => by
    rw [types]
    exact .pure []
  | t :: r => by
    rw [types, Ty.namesAll_cons, Ty.renderAll]
    exact writes_append (writes_type t) ((writes_types r).map _)

end

/-! ## Errors -/

/-- A target is refused exactly if it stands for nothing, or for a model that the pool does not have. -/
theorem exists_refusal_iff {target : TypeTarget} :
    (∃ err, e.refusal? model field target = some err) ↔ (∃ path, target = .unresolved path) ∨
      ∃ name, target = .declared e.pool name ∧ name ∉ e.models.map MergedModel.name := by
  cases target with
  | declared package name => simp [refusal?, and_comm]
  | _ => simp [refusal?]

/-- **A type is written** unless some of its targets is refused. -/
theorem run_type_eq_ok_iff {t : ResolvedType} {text : String} {used used' : UsedPackages} :
    (e.type model field t).run used = .ok (text, used') ↔
      (∀ target ∈ ResolvedType.targets t, e.refusal? model field target = none) ∧
        text = t.render e.shown ∧ used' = used.insertMany (e.outside (ResolvedType.targets t)) := by
  rw [writes_type t used, ← List.findSome?_eq_none_iff]
  cases (ResolvedType.targets t).findSome? (e.refusal? model field) with
  | some err => simp
  | none => simp [eq_comm]

/-- **And the first that is refused decides the error.** -/
theorem run_type_eq_error_iff {t : ResolvedType} {err : SynthesisError} {used : UsedPackages} :
    (e.type model field t).run used = .error err ↔ ∃ before target after,
      ResolvedType.targets t = before ++ target :: after ∧
        e.refusal? model field target = some err ∧
          ∀ earlier ∈ before, e.refusal? model field earlier = none := by
  rw [writes_type t used, ← List.findSome?_eq_some_iff]
  cases (ResolvedType.targets t).findSome? (e.refusal? model field) with
  | some err => simp
  | none => simp

/-- Writing fails exactly if some target is refused. -/
theorem exists_run_type_eq_error_iff {t : ResolvedType} {used : UsedPackages} :
    (∃ err, (e.type model field t).run used = .error err) ↔ ∃ target ∈ ResolvedType.targets t,
      (∃ path, target = .unresolved path) ∨
        ∃ name, target = .declared e.pool name ∧ name ∉ e.models.map MergedModel.name := by
  simp only [← @exists_refusal_iff e model field]
  rw [writes_type t used]
  cases hrefused : (ResolvedType.targets t).findSome? (e.refusal? model field) with
  | some err =>
    refine iff_of_true ⟨err, rfl⟩ ?_
    obtain ⟨target, htarget, hrefused⟩ := List.exists_of_findSome?_eq_some hrefused
    exact ⟨target, htarget, err, hrefused⟩
  | none =>
    refine iff_of_false (by simp) ?_
    rintro ⟨target, htarget, err, herr⟩
    exact absurd ((List.findSome?_eq_none_iff.1 hrefused target htarget).symm.trans herr) (by simp)

/-- The packages besides the pool that targets lie in. -/
theorem mem_outside {targets : List TypeTarget} {package : String} : package ∈ e.outside targets ↔
    package ≠ e.pool ∧ ∃ name, .declared package name ∈ targets := by
  simp only [outside, List.mem_filterMap, TypeTarget.outsidePackage?_eq_some_iff]
  constructor
  · rintro ⟨_, htarget, hne, name, rfl⟩
    exact ⟨hne, name, htarget⟩
  · rintro ⟨hne, name, htarget⟩
    exact ⟨_, htarget, hne, name, rfl⟩

/-- **Types are written as they print, and all that is imported for them has a name.**  Writing fails
exactly if some target stands for nothing or for a model that the pool does not have, with the error of the
first such target.  Otherwise the text is that of the type with `shown` for its targets, and the packages
besides the pool that the targets lie in are added to those that are used. -/
theorem type_written (pool poolName : String) (models : List MergedModel) (model field : String)
    (t : ResolvedType) (used : UsedPackages) :
    let e := ofModels pool poolName models
    ((∃ err, (e.type model field t).run used = .error err) ↔
        ∃ target ∈ ResolvedType.targets t, (∃ path, target = .unresolved path) ∨
          ∃ name, target = .declared pool name ∧ name ∉ models.map MergedModel.name) ∧
      (∀ err, (e.type model field t).run used = .error err ↔ ∃ before target after,
        ResolvedType.targets t = before ++ target :: after ∧
          e.refusal? model field target = some err ∧
            ∀ earlier ∈ before, e.refusal? model field earlier = none) ∧
      ((∀ target ∈ ResolvedType.targets t, e.refusal? model field target = none) →
        ∃ used', (e.type model field t).run used = .ok (t.render e.shown, used') ∧
          ∀ package, package ∈ used' ↔ package ∈ used ∨
            package ≠ pool ∧ ∃ name, .declared package name ∈ ResolvedType.targets t) ∧
      ∀ m ∈ models, ∀ f ∈ m.fields, ∀ package name,
        .declared package name ∈ ResolvedType.targets f.type → package ≠ pool →
          e.aliases.lookup package = some (e.aliasOf package) := by
  refine ⟨exists_run_type_eq_error_iff, fun err => run_type_eq_error_iff, fun h => ?_,
    fun m hm f hf package name hname hne => lookup_aliases (mem_outsidePackages.2 ?_)⟩
  · refine ⟨_, run_type_eq_ok_iff.2 ⟨h, rfl, rfl⟩, fun package => ?_⟩
    rw [Std.ExtTreeSet.mem_insertMany_list, List.contains_iff_mem, mem_outside]
    rfl
  · exact ⟨hne, f.type, List.mem_flatMap_of_mem hm (List.mem_map_of_mem hf), name, hname⟩

/-! ## Fields -/

/-- **The fields of a model are written one after the other.** -/
theorem writes_writtenFields (fs : List MergedField) : Writes (e.writtenFields model fs)
    (fs.findSome? fun f => (ResolvedType.targets f.type).findSome? (e.refusal? model f.name))
    (fs.map fun f => (f, Ty.render e.shown f.type))
    (e.outside ((fs.map MergedField.type).flatMap ResolvedType.targets)) := by
  induction fs with
  | nil => exact .pure []
  | cons f r ih =>
    have hfirst : ∀ refused : MergedField → Option SynthesisError,
        (f :: r).findSome? refused = (refused f).or (r.findSome? refused) := by
      intro refused
      rw [← List.singleton_append, List.findSome?_append, List.findSome?_singleton]
    rw [writtenFields, hfirst, List.map_cons, List.map_cons, List.flatMap_cons, outside,
      List.filterMap_append]
    exact (writes_type f.type).bind (ih.map _)

/-- The packages that the fields of a model use are those that its file imports. -/
theorem toList_insertMany_outside (types : List ResolvedType) :
    ((∅ : UsedPackages).insertMany (e.outside (types.flatMap ResolvedType.targets))).toList =
      outsidePackages e.pool types := by
  refine List.SortedLT.eq_of_mem_iff ?_ (sortedLT_outsidePackages e.pool types) fun package => ?_
  · exact (Std.ExtTreeSet.ordered_toList.imp compare_lt_iff_lt.1).sortedLT
  · simp [outsidePackages, outside, Std.ExtTreeSet.mem_insertMany_list]

/-- **When the file of a model is written**, and what it is. -/
theorem model_eq_ok_iff {m : MergedModel} {content : String} : e.model m = .ok content ↔
    (∀ f ∈ m.fields, ∀ target ∈ ResolvedType.targets f.type, e.refusal? m.name f.name target = none) ∧
      content = preamble e.poolName ++
        e.useLines (outsidePackages e.pool (m.fields.map MergedField.type)) ++ "\n" ++ modelDocs m ++
        structLines m (m.fields.map fun f => (f, Ty.render e.shown f.type)) ++ "\n" ++ implLines m := by
  have hfields := @writes_writtenFields e m.name m.fields ∅
  unfold Emitter.model
  rw [hfields]
  cases hrefused : m.fields.findSome? fun f =>
      (ResolvedType.targets f.type).findSome? (e.refusal? m.name f.name) with
  | some err =>
    obtain ⟨f, hf, hrefused⟩ := List.exists_of_findSome?_eq_some hrefused
    obtain ⟨target, htarget, hrefused⟩ := List.exists_of_findSome?_eq_some hrefused
    refine iff_of_false (by simp [bind, Except.bind]) fun h => ?_
    exact absurd ((h.1 f hf target htarget).symm.trans hrefused) (by simp)
  | none =>
    simp only [List.findSome?_eq_none_iff] at hrefused
    rw [← toList_insertMany_outside]
    exact ⟨fun h => ⟨hrefused, (Except.ok.inj h).symm⟩, fun h => congrArg Except.ok h.2.symm⟩

end Emitter

end ModelPool
