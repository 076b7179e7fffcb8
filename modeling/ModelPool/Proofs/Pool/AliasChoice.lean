import ModelPool.Proofs.Pool.Aliases
import ModelPool.Proofs.Types.Traversal

/-!
# Proofs/Pool/AliasChoice — which name a package gets

    modules::base         base
    vendor::base          base_2     a package before it is named base
    vendor::core          core_2     the word means something already

The packages are named in alphabetical order, each by the first of its candidates that is not a model's
name, not a reserved word and not the name of a package before it.  So the names depend on nothing but which
models and which packages there are.

* `endsIn_lastSegment` — the last segment of a path's text.
* `Mentions` — what stands somewhere in a type.
* `freshName_congr` — only what is taken matters.
* `eq_freshName_of_assignAliases` — the name of a package among those that are assigned.
* `Emitter.aliases_assigned` — the names of the packages of a pool.
-/

namespace ModelPool

open Text

/-! ## Last segments -/

/-- **A text ends in a segment**: it is the segment, or this stands behind the last `::` of it. -/
def EndsIn (text segment : String) : Prop :=
  (text = segment ∧ ¬ [':', ':'] <:+: segment.toList) ∨
    ∃ front, text = front ++ "::" ++ segment ∧ ¬ [':', ':'] <:+: ':' :: segment.toList

/-- **There is one such segment only.** -/
theorem EndsIn.unique {text segment other : String} (h : EndsIn text segment) (h' : EndsIn text other) :
    segment = other := by
  -- a segment with two colons before it would hold those of a shorter one
  have hshort : ∀ {s s' : String} {front front' : String}, text = front ++ "::" ++ s →
      text = front' ++ "::" ++ s' → ¬ [':', ':'] <:+: ':' :: s'.toList → s'.toList.length ≤ s.toList.length := by
    intro s s' front front' hs hs' hnone
    by_contra hlt
    refine hnone ?_
    have hsuffix : ':' :: ':' :: s.toList <:+ text.toList := ⟨front.toList, by rw [hs]; simp⟩
    have hsuffix' : ':' :: s'.toList <:+ text.toList := ⟨front'.toList ++ [':'], by rw [hs']; simp⟩
    have hin := List.suffix_of_suffix_length_le hsuffix hsuffix' (by simp only [List.length_cons]; omega)
    exact (List.prefix_append [':', ':'] s.toList).isInfix.trans hin.isInfix
  have hnot : ∀ {s front : String}, text = front ++ "::" ++ s → [':', ':'] <:+: text.toList := by
    rintro s front rfl
    exact ⟨front.toList, s.toList, by simp⟩
  rcases h with ⟨rfl, hnone⟩ | ⟨front, hs, hnone⟩ <;> rcases h' with ⟨h', hnone'⟩ | ⟨front', hs', hnone'⟩
  · exact h'
  · exact absurd (hnot hs') hnone
  · exact absurd (hnot hs) (h' ▸ hnone')
  · have hlength := Nat.le_antisymm (hshort hs' hs hnone) (hshort hs hs' hnone')
    have htails : (front ++ "::").toList ++ segment.toList = (front' ++ "::").toList ++ other.toList := by
      rw [← String.toList_append, ← String.toList_append, ← hs, ← hs']
    exact String.toList_inj.1 (List.append_inj_right' htails hlength)

/-- Two colons begin a text or stand behind its first character. -/
theorem not_infix_cons {c : Char} {cs : List Char} (hc : ∀ r, c = ':' → cs = ':' :: r → False)
    (h : ¬ [':', ':'] <:+: cs) : ¬ [':', ':'] <:+: c :: cs := by
  rw [List.infix_cons_iff]
  rintro (⟨r, hr⟩ | hinfix)
  · obtain ⟨rfl, rfl⟩ := List.cons.inj hr
    exact hc r rfl rfl
  · exact h hinfix

/-- The first part of a text goes up to the first `::` of it. -/
theorem head_splitColons (cs : List Char) : ∃ part parts, splitColons cs = part :: parts ∧
    ((cs = part ∧ ¬ [':', ':'] <:+: part) ∨
      ∃ r, cs = part ++ ':' :: ':' :: r ∧ ¬ [':', ':'] <:+: part ++ [':']) := by
  fun_induction splitColons cs with
  | case1 => exact ⟨[], [], rfl, .inl ⟨rfl, by simp⟩⟩
  | case2 r ih => exact ⟨[], _, rfl, .inr ⟨r, rfl, by decide⟩⟩
  | case3 c r hc hnil ih => exact absurd hnil (splitColons_ne_nil r)
  | case4 c r hc part parts heq ih =>
    obtain ⟨part, parts, heq', hpart⟩ := ih
    obtain ⟨rfl, rfl⟩ := List.cons.inj (heq.symm.trans heq')
    refine ⟨c :: part, parts, rfl, ?_⟩
    rcases hpart with ⟨rfl, hnone⟩ | ⟨q, rfl, hnone⟩
    · exact .inl ⟨rfl, not_infix_cons hc hnone⟩
    · refine .inr ⟨q, rfl, not_infix_cons (fun s hcolon hs => hc (s ++ ':' :: q) hcolon ?_) hnone⟩
      have happend := congrArg (· ++ ':' :: q) hs
      simpa using happend

/-- **A path's text ends in its last segment.** -/
theorem endsIn_lastSegment (text : String) : EndsIn text (lastSegment text) := by
  obtain ⟨part, parts, hparts, hpart⟩ := head_splitColons text.toList.reverse
  have hlast : lastSegment text = String.ofList part.reverse := by
    unfold lastSegment
    simp only [hparts, List.head_cons]
  have hcolons : ∀ cs : List Char, [':', ':'] <:+: cs.reverse ↔ [':', ':'] <:+: cs := fun cs =>
    @List.reverse_infix _ [':', ':'] cs
  rw [EndsIn, hlast, String.toList_ofList, hcolons]
  rcases hpart with ⟨hwhole, hnone⟩ | ⟨r, hsplit, hnone⟩
  · exact .inl ⟨by rw [← hwhole, List.reverse_reverse, String.ofList_toList], hnone⟩
  · refine .inr ⟨String.ofList r.reverse, ?_, ?_⟩
    · rw [← String.toList_inj, ← List.reverse_inj, hsplit]
      simp
    · rw [← hcolons] at hnone
      simpa using hnone

/-! ## What stands in a type -/

/-- **A target stands somewhere in a type.** -/
inductive Mentions (target : TypeTarget) : ResolvedType → Prop
  | here {args} : Mentions target (.path target args)
  | argument {other args t} (ht : t ∈ args) (h : Mentions target t) : Mentions target (.path other args)
  | reference {lifetime mutable inner} (h : Mentions target inner) :
      Mentions target (.reference lifetime mutable inner)
  | slice {element} (h : Mentions target element) : Mentions target (.slice element)
  | array {element length} (h : Mentions target element) : Mentions target (.array element length)
  | element {elements t} (ht : t ∈ elements) (h : Mentions target t) : Mentions target (.tuple elements)
  | bound {keyword bound} (h : Mentions target bound) : Mentions target (.traitObject keyword bound)

/-- **The targets of a type are those that stand in it.** -/
theorem mentions_iff {target : TypeTarget} {t : ResolvedType} :
    Mentions target t ↔ target ∈ ResolvedType.targets t := by
  unfold ResolvedType.targets
  constructor
  · intro h
    induction h with
    | here => simp
    | argument ht _ ih => exact List.mem_cons_of_mem _ (Ty.mem_namesAll.2 ⟨_, ht, ih⟩)
    | reference _ ih => simpa using ih
    | slice _ ih => simpa using ih
    | array _ ih => simpa using ih
    | element ht _ ih => exact Ty.mem_namesAll.2 ⟨_, ht, ih⟩
    | bound _ ih => simpa using ih
  · induction t using Ty.partsInduction with
    | path name args ih =>
      rw [Ty.names_path, List.mem_cons, Ty.mem_namesAll]
      rintro (rfl | ⟨t, ht, h⟩)
      · exact .here
      · exact .argument ht (ih t ht h)
    | reference lifetime mutable inner ih => exact fun h => .reference (ih h)
    | slice element ih => exact fun h => .slice (ih h)
    | array element length ih => exact fun h => .array (ih h)
    | tuple elements ih =>
      rw [Ty.names_tuple, Ty.mem_namesAll]
      rintro ⟨t, ht, h⟩
      exact .element ht (ih t ht h)
    | traitObject keyword bound ih => exact fun h => .bound (ih h)
    | verbatim text => exact fun h => absurd h List.not_mem_nil

/-! ## Names of packages in order -/

/-- **A fresh name depends on nothing but which names are taken.** -/
theorem freshName_congr {taken taken' : List String} (h : ∀ name, name ∈ taken ↔ name ∈ taken')
    (base : String) : freshName taken base = freshName taken' base := by
  obtain ⟨k, hk, hfree, hbefore⟩ := exists_freshName_eq taken base
  obtain ⟨l, hl, hfree', hbefore'⟩ := exists_freshName_eq taken' base
  rw [hk, hl]
  rcases Nat.lt_trichotomy k l with hlt | rfl | hlt
  · exact absurd ((h _).2 (hbefore' k hlt)) hfree
  · rfl
  · exact absurd ((h _).1 (hbefore l hlt)) hfree'

/-- And so do the names that are assigned. -/
theorem assignAliases_congr {taken taken' : List String} (h : ∀ name, name ∈ taken ↔ name ∈ taken')
    (packages : List String) : assignAliases taken packages = assignAliases taken' packages := by
  induction packages generalizing taken taken' with
  | nil => rfl
  | cons package r ih =>
    unfold assignAliases
    rw [freshName_congr h]
    refine congrArg _ (ih fun name => ?_)
    rw [List.mem_cons, List.mem_cons, h]

/-- **The name of a package** is free of what was taken and of the names of the packages before it. -/
theorem eq_freshName_of_assignAliases {taken packages : List String} {package bound : String}
    {before after : List (String × String)}
    (h : assignAliases taken packages = before ++ (package, bound) :: after) :
    bound = freshName (before.map Prod.snd ++ taken) (lastSegment package) := by
  induction before generalizing taken packages with
  | nil =>
    cases packages with
    | nil => exact absurd h (by simp [assignAliases])
    | cons first r =>
      obtain ⟨hentry, -⟩ := List.cons.inj h
      obtain ⟨rfl, rfl⟩ := Prod.mk.inj hentry
      rfl
  | cons entry before ih =>
    cases packages with
    | nil => exact absurd h (by simp [assignAliases])
    | cons first r =>
      obtain ⟨rfl, hrest⟩ := List.cons.inj h
      rw [ih hrest]
      refine freshName_congr (fun name => ?_) _
      simp [or_left_comm]

namespace Emitter

variable {pool poolName : String} {models : List MergedModel} {package other bound : String}

/-- The packages besides the pool that the fields of models refer to. -/
def ReferTo (pool : String) (models : List MergedModel) (package : String) : Prop :=
  package ≠ pool ∧ ∃ m ∈ models, ∃ f ∈ m.fields, ∃ name, Mentions (.declared package name) f.type

theorem mem_outsidePackages_iff : package ∈ outsidePackages pool (models.flatMap fun m =>
    m.fields.map MergedField.type) ↔ ReferTo pool models package := by
  rw [mem_outsidePackages]
  refine and_congr_right fun _ => ?_
  simp only [List.mem_flatMap, List.mem_map, mentions_iff]
  constructor
  · rintro ⟨_, ⟨m, hm, f, hf, rfl⟩, name, hname⟩
    exact ⟨m, hm, f, hf, name, hname⟩
  · rintro ⟨m, hm, f, hf, name, hname⟩
    exact ⟨_, ⟨m, hm, f, hf, rfl⟩, name, hname⟩

/-- The packages with a name stand in alphabetical order. -/
theorem sortedLT_aliases (pool poolName : String) (models : List MergedModel) :
    ((ofModels pool poolName models).aliases.map Prod.fst).SortedLT := by
  have hassigned : Assigned _ _ (ofModels pool poolName models).aliases := assigned_assignAliases _ _
  rw [hassigned.keys]
  exact sortedLT_outsidePackages _ _

/-- A package is found under its name, as it has got one only. -/
theorem lookup_aliases_iff : (ofModels pool poolName models).aliases.lookup package = some bound ↔
    (package, bound) ∈ (ofModels pool poolName models).aliases := by
  refine ⟨mem_of_lookup_eq_some, fun hmem => ?_⟩
  have hassigned : Assigned _ _ (ofModels pool poolName models).aliases := assigned_assignAliases _ _
  have hlookup := @lookup_aliases pool poolName models package
    (hassigned.keys ▸ List.mem_map_of_mem hmem)
  have hsame := List.inj_on_of_nodup_map (sortedLT_aliases pool poolName models).nodup hmem
    (mem_of_lookup_eq_some hlookup) rfl
  rw [hlookup, (Prod.mk.inj hsame).2]

/-- **The name of a package is the first candidate that is free**: those before it are taken by a model,
by a reserved word, or by a package that comes before in alphabetical order. -/
theorem exists_lookup_aliases_eq
    (h : (ofModels pool poolName models).aliases.lookup package = some bound) :
    ∃ k, bound = numbered (lastSegment package) k ∧ ∀ j < k,
      numbered (lastSegment package) j ∈ models.map MergedModel.name ++ reservedAliases ∨
        ∃ earlier < package, (ofModels pool poolName models).aliases.lookup earlier =
          some (numbered (lastSegment package) j) := by
  obtain ⟨before, after, hsplit, -⟩ := List.lookup_eq_some_iff.1 h
  obtain ⟨k, hk, -, hbefore⟩ := exists_freshName_eq
    (before.map Prod.snd ++ (models.map MergedModel.name ++ reservedAliases)) (lastSegment package)
  refine ⟨k, (eq_freshName_of_assignAliases hsplit).trans hk, fun j hj => ?_⟩
  refine (List.mem_append.1 (hbefore j hj)).symm.imp_right fun hmem => ?_
  obtain ⟨entry, hentry, hname⟩ := List.mem_map.1 hmem
  have hsorted := (sortedLT_aliases pool poolName models).pairwise
  rw [hsplit, List.map_append, List.pairwise_append] at hsorted
  refine ⟨entry.1, ?_, lookup_aliases_iff.2 ?_⟩
  · exact hsorted.2.2 _ (List.mem_map_of_mem hentry) _ (List.mem_map_of_mem List.mem_cons_self)
  · rw [hsplit, ← hname]
    exact List.mem_append_left _ hentry

/-- **The names depend on nothing but the models' names and the packages.** -/
theorem aliases_congr {others : List MergedModel} (otherName : String)
    (hnames : ∀ name, name ∈ models.map MergedModel.name ↔ name ∈ others.map MergedModel.name)
    (hpackages : ∀ package, ReferTo pool models package ↔ ReferTo pool others package) :
    (ofModels pool poolName models).aliases = (ofModels pool otherName others).aliases := by
  have hsame := (sortedLT_outsidePackages pool _).eq_of_mem_iff (sortedLT_outsidePackages pool _)
    fun package => mem_outsidePackages_iff.trans ((hpackages package).trans mem_outsidePackages_iff.symm)
  unfold ofModels aliasesFor
  dsimp only
  rw [hsame]
  refine assignAliases_congr (fun name => ?_) _
  rw [List.mem_append, List.mem_append, hnames]

/-- A name means something already, or a package has it that comes before in alphabetical order. -/
def IsTaken (models : List MergedModel) (aliases : List (String × String)) (package name : String) : Prop :=
  name ∈ models.map MergedModel.name ∨
    name ∈ ["std", "core", "alloc", "self", "crate", "super", "Self"] ∨
      ∃ earlier < package, aliases.lookup earlier = some name

/-- **A name is the first candidate that is not taken.** -/
theorem first_free (h : (ofModels pool poolName models).aliases.lookup package = some bound) :
    bound = lastSegment package ∨
      IsTaken models (ofModels pool poolName models).aliases package (lastSegment package) ∧
        ∃ k, 2 ≤ k ∧ bound = lastSegment package ++ "_" ++ toString k ∧ ∀ j, 2 ≤ j → j < k →
          IsTaken models (ofModels pool poolName models).aliases package
            (lastSegment package ++ "_" ++ toString j) := by
  obtain ⟨k, rfl, hbefore⟩ := exists_lookup_aliases_eq h
  have htaken : ∀ j < k,
      IsTaken models (ofModels pool poolName models).aliases package (numbered (lastSegment package) j) :=
    fun j hj => (hbefore j hj).elim (fun hmem => (List.mem_append.1 hmem).imp_right .inl)
      fun hearlier => .inr (.inr hearlier)
  cases k with
  | zero => exact .inl rfl
  | succ k =>
    refine .inr ⟨htaken 0 (Nat.succ_pos k), k + 2, Nat.le_add_left 2 k, rfl, fun j hj hlt => ?_⟩
    obtain ⟨i, rfl⟩ : ∃ i, j = i + 2 := ⟨j - 2, by omega⟩
    exact htaken (i + 1) (by omega)

/-- **Every package that the models refer to gets a name of its own.**  The packages with a name are those
besides the pool that stand somewhere in the fields of the models, and no two have one name.  A name is no
model's and no reserved word.  It is the last segment of the package's path, or where this is taken the
segment with the first number from 2 on that is not.  The names depend on nothing but which names the
models have and which packages they refer to. -/
theorem aliases_assigned (pool poolName : String) (models : List MergedModel) :
    let aliases := (ofModels pool poolName models).aliases
    (aliases.map Prod.fst).SortedLT ∧
      (∀ package, (∃ bound, aliases.lookup package = some bound) ↔ ReferTo pool models package) ∧
      (∀ package other bound, aliases.lookup package = some bound →
        aliases.lookup other = some bound → package = other) ∧
      (∀ package bound, aliases.lookup package = some bound →
        bound ∉ models.map MergedModel.name ∧
          bound ∉ ["std", "core", "alloc", "self", "crate", "super", "Self"] ∧
          ∃ segment, EndsIn package segment ∧ (∀ other, EndsIn package other → other = segment) ∧
            (bound = segment ∨ IsTaken models aliases package segment ∧
              ∃ k, 2 ≤ k ∧ bound = segment ++ "_" ++ toString k ∧
                ∀ j, 2 ≤ j → j < k → IsTaken models aliases package (segment ++ "_" ++ toString j))) ∧
      ∀ (otherName : String) (others : List MergedModel),
        (∀ name, name ∈ models.map MergedModel.name ↔ name ∈ others.map MergedModel.name) →
          (∀ package, ReferTo pool models package ↔ ReferTo pool others package) →
            (ofModels pool otherName others).aliases = aliases := by
  have hassigned : Assigned _ _ (ofModels pool poolName models).aliases := assigned_assignAliases _ _
  refine ⟨sortedLT_aliases pool poolName models, fun package => ?_, fun package other bound h h' => ?_,
    fun package bound h => ?_, fun otherName others hnames hpackages => ?_⟩
  · rw [← mem_outsidePackages_iff, ← @isSome_lookup_aliases_iff pool poolName, Option.isSome_iff_exists]
  · exact congrArg Prod.fst (List.inj_on_of_nodup_map hassigned.nodup (lookup_aliases_iff.1 h)
      (lookup_aliases_iff.1 h') rfl)
  · obtain ⟨hmodel, hreserved⟩ := not_or.1 (List.mem_append.not.1 (hassigned.fresh _ (lookup_aliases_iff.1 h)))
    exact ⟨hmodel, hreserved, lastSegment package, endsIn_lastSegment package,
      fun other hother => hother.unique (endsIn_lastSegment package), first_free h⟩
  · exact (aliases_congr otherName hnames hpackages).symm

/-- A model with fields of four packages, in a slice, as an argument and behind a reference. -/
def namingModels : List MergedModel :=
  [⟨"A", [], ["m"],
    [⟨"x", .slice (.path (.declared "vendor::base" "T") []), [], "m"⟩,
      ⟨"y", .path (.builtin "Vec") [.path (.declared "modules::base" "T") []], [], "m"⟩,
      ⟨"z", .tuple [.path (.declared "vendor::core" "T") [], .path (.declared "pool" "A") []], [], "m"⟩,
      ⟨"w", .reference none false (.path (.declared "a::A" "T") []), [], "m"⟩]⟩]

/-- Their packages in alphabetical order. -/
theorem outsidePackages_naming : outsidePackages "pool" (namingModels.flatMap fun m =>
    m.fields.map MergedField.type) = ["a::A", "modules::base", "vendor::base", "vendor::core"] := by
  have hsorted : ["a::A", "modules::base", "vendor::base", "vendor::core"].Pairwise (· < ·) := by decide
  refine (sortedLT_outsidePackages "pool" _).eq_of_mem_iff hsorted.sortedLT fun package => ?_
  have hperm : ["vendor::base", "modules::base", "vendor::core", "a::A"].Perm
      ["a::A", "modules::base", "vendor::base", "vendor::core"] := by decide
  exact ((List.mergeSort_perm _ _).trans hperm).mem_iff

/-- Three of them are numbered: after a package before it, after a reserved word and after the model. -/
theorem aliases_assigned_numbered :
    (ofModels "pool" "pool" namingModels).aliases = [("a::A", "A_2"), ("modules::base", "base"),
      ("vendor::base", "base_2"), ("vendor::core", "core_2")] ∧
    ReferTo "pool" namingModels "vendor::core" ∧ ¬ ReferTo "pool" namingModels "pool" ∧
      IsTaken namingModels (ofModels "pool" "pool" namingModels).aliases "vendor::base" "base" := by
  have haliases : (ofModels "pool" "pool" namingModels).aliases = [("a::A", "A_2"), ("modules::base", "base"),
      ("vendor::base", "base_2"), ("vendor::core", "core_2")] := by
    rw [ofModels, aliasesFor, outsidePackages_naming]
    decide +kernel
  obtain ⟨-, hdomain, -, hnames, -⟩ := aliases_assigned "pool" "pool" namingModels
  rw [haliases] at hdomain hnames ⊢
  refine ⟨rfl, (hdomain _).1 ⟨"core_2", by decide⟩, fun h => ?_, ?_⟩
  · obtain ⟨bound, hbound⟩ := (hdomain _).2 h
    exact Option.some_ne_none bound (hbound.symm.trans (by decide))
  · obtain ⟨-, -, segment, -, hunique, hname⟩ := hnames "vendor::base" "base_2" (by decide)
    have hends : EndsIn "vendor::base" "base" := .inr ⟨"vendor", by decide, by decide⟩
    obtain rfl := hunique "base" hends
    exact (hname.resolve_left (by decide)).1

end Emitter

end ModelPool
