import Mathlib.Data.List.Nodup
import Mathlib.Data.List.Perm.Subperm
import Mathlib.Data.List.Sort
import Mathlib.Data.String.Basic
import ModelPool.Pool.Emit
import ModelPool.Proofs.Pool.Collecting
import ModelPool.Proofs.Source.Lexemes

/-!
# Proofs/Pool/Aliases — the names that packages are imported under

Each package is imported under the last segment of its path, or under that segment with a number.  Of more
candidates than there are taken names one is free, so a package never gets a name that is taken: that of a
model, a reserved word, or the name of another package.

* `freshName_not_mem` — a fresh name is not taken.
* `assigned_assignAliases` — what is known of names that are assigned one after the other.
-/

namespace ModelPool

open Text Source

/-! ## Candidates -/

/-- **Numbers differ in their digits.** -/
theorem toDigits_injective : Function.Injective (Nat.toDigits 10) := by
  intro k
  induction k using Nat.strongRecOn with
  | ind k ih =>
    intro l h
    have hdigit : ∀ {a b : Nat}, a < 10 → b < 10 → a.digitChar = b.digitChar → a = b := by
      intro a b ha hb hab
      have hcode := congrArg Char.toNat hab
      rw [Nat.toNat_digitChar_of_lt_ten ha, Nat.toNat_digitChar_of_lt_ten hb] at hcode
      omega
    have hlast : ∀ {cs ds : List Char} {c d : Char}, cs ++ [c] = ds ++ [d] → cs = ds ∧ c = d :=
      fun heq => by simpa using List.append_inj' heq rfl
    rw [Nat.toDigits_eq_if (n := k) (by decide), Nat.toDigits_eq_if (n := l) (by decide)] at h
    split at h
    · next hk =>
      split at h
      · next hl => exact hdigit hk hl (List.cons.inj h).1
      · exact absurd (@hlast [] _ _ _ h).1.symm Nat.toDigits_ne_nil
    · next hk =>
      split at h
      · exact absurd (@hlast _ [] _ _ h).1 Nat.toDigits_ne_nil
      · obtain ⟨hfront, hend⟩ := hlast h
        have hdiv : k / 10 = l / 10 := ih (k / 10) (by omega) hfront
        have hmod : k % 10 = l % 10 := hdigit (by omega) (by omega) hend
        omega

theorem toList_numbered (base : String) (k : Nat) : (numbered base k).toList =
    base.toList ++ if k = 0 then [] else '_' :: Nat.toDigits 10 (k + 1) := by
  unfold numbered
  split
  · simp
  · simp

/-- **The candidates of a base differ.** -/
theorem numbered_injective (base : String) : Function.Injective (numbered base) := by
  intro k l h
  have htails : (if k = 0 then [] else '_' :: Nat.toDigits 10 (k + 1)) =
      if l = 0 then [] else '_' :: Nat.toDigits 10 (l + 1) := by
    have hlists := congrArg String.toList h
    rw [toList_numbered, toList_numbered] at hlists
    exact List.append_cancel_left hlists
  by_cases hk : k = 0
  · by_cases hl : l = 0
    · rw [hk, hl]
    · simp [hk, hl] at htails
  · by_cases hl : l = 0
    · simp [hk, hl] at htails
    · simp only [hk, hl, if_false, List.cons.injEq, true_and] at htails
      exact Nat.succ.inj (toDigits_injective htails)

/-- A candidate of a word is a word. -/
theorem isWord_numbered {base : String} (h : isWord base.toList = true) (k : Nat) :
    isWord (numbered base k).toList = true := by
  have hextend : ∀ {cs tail : List Char}, isWord cs = true → tail.all isIdentifierTail = true →
      isWord (cs ++ tail) = true := by
    intro cs tail hcs htail
    unfold isWord at hcs ⊢
    split at hcs
    · next c r => simpa [htail, and_assoc] using hcs
    · next c r hraw =>
      obtain ⟨hc, hr⟩ := Bool.and_eq_true_iff.1 hcs
      have hall : (r ++ tail).all isIdentifierTail = true := by rw [List.all_append, hr, htail]; rfl
      rw [List.cons_append]
      split
      · next heq =>
        rw [(List.cons.inj heq).2, List.all_cons] at hall
        exact absurd (Bool.and_eq_true_iff.1 hall).1 (by decide)
      · next heq =>
        obtain ⟨rfl, rfl⟩ := List.cons.inj heq
        rw [hc, hall]
        rfl
      · next heq => exact absurd heq (by simp)
    · exact absurd hcs (by simp)
  rw [toList_numbered]
  refine hextend h ?_
  split
  · rfl
  · have hdigits : (Nat.toDigits 10 (k + 1)).all isIdentifierTail = true :=
      List.all_eq_true.2 fun c hc =>
        isIdentifierTail_of_isDigit (Nat.isDigit_of_mem_toDigits (by decide) (by decide) hc)
    rw [List.all_cons, hdigits]
    decide

/-- **A fresh name is the first candidate that is not taken.** -/
theorem exists_freshName_eq (taken : List String) (base : String) :
    ∃ k, freshName taken base = numbered base k ∧ numbered base k ∉ taken ∧
      ∀ j < k, numbered base j ∈ taken := by
  unfold freshName
  rw [List.find?_map]
  cases hfound : (List.range (taken.length + 1)).find? ((· ∉ taken) ∘ numbered base) with
  | some k =>
    obtain ⟨hk, -, hbefore⟩ := List.find?_range_eq_some.1 hfound
    exact ⟨k, rfl, by simpa using hk, fun j hj => by simpa using hbefore j hj⟩
  | none =>
    -- all candidates would be among the taken names, of which there are fewer
    have hall : ∀ name ∈ (List.range (taken.length + 1)).map (numbered base), name ∈ taken := by
      simpa using hfound
    have hnodup : ((List.range (taken.length + 1)).map (numbered base)).Nodup :=
      List.nodup_range.map (numbered_injective base)
    have hlength := (hnodup.subperm hall).length_le
    rw [List.length_map, List.length_range] at hlength
    omega

/-- **A fresh name is not taken.** -/
theorem freshName_not_mem (taken : List String) (base : String) : freshName taken base ∉ taken := by
  obtain ⟨k, hname, hfree, -⟩ := exists_freshName_eq taken base
  rwa [hname]

/-! ## Assigned names -/

/-- **Names assigned to packages in order**: each is a candidate of the package, and no two are one. -/
structure Assigned (taken packages : List String) (aliases : List (String × String)) : Prop where
  keys : aliases.map Prod.fst = packages
  candidates : ∀ a ∈ aliases, ∃ k, a.2 = numbered (lastSegment a.1) k
  fresh : ∀ a ∈ aliases, a.2 ∉ taken
  nodup : (aliases.map Prod.snd).Nodup

/-- **What is known of names that are assigned.** -/
theorem assigned_assignAliases (taken packages : List String) :
    Assigned taken packages (assignAliases taken packages) := by
  induction packages generalizing taken with
  | nil => exact ⟨rfl, by simp [assignAliases], by simp [assignAliases], by simp [assignAliases]⟩
  | cons package r ih =>
    obtain ⟨hkeys, hcandidates, hfresh, hnodup⟩ := ih (freshName taken (lastSegment package) :: taken)
    unfold assignAliases
    have hcandidate := (exists_freshName_eq taken (lastSegment package)).imp fun _ h => h.1
    refine ⟨by simp [hkeys], List.forall_mem_cons.2 ⟨hcandidate, hcandidates⟩,
      List.forall_mem_cons.2 ⟨freshName_not_mem _ _, fun a ha hmem => ?_⟩, ?_⟩
    · exact hfresh a ha (List.mem_cons_of_mem _ hmem)
    · rw [List.map_cons, List.nodup_cons]
      refine ⟨fun hmem => ?_, hnodup⟩
      obtain ⟨a, ha, heq⟩ := List.mem_map.1 hmem
      exact hfresh a ha (heq ▸ List.mem_cons_self)

/-- What is found in a list of pairs stands there. -/
theorem mem_of_lookup_eq_some {l : List (String × String)} {key value : String}
    (h : l.lookup key = some value) : (key, value) ∈ l := by
  obtain ⟨before, after, heq, -⟩ := List.lookup_eq_some_iff.1 h
  rw [heq]
  simp

/-! ## Packages that are imported -/

/-- A target that lies in a package besides the pool is declared there. -/
theorem TypeTarget.outsidePackage?_eq_some_iff {pool package : String} {target : TypeTarget} :
    target.outsidePackage? pool = some package ↔
      package ≠ pool ∧ ∃ name, target = .declared package name := by
  cases target with
  | declared owner name =>
    by_cases howner : owner = pool
    · simp only [outsidePackage?, howner, if_true, reduceCtorEq, declared.injEq, false_iff, not_and,
        not_exists]
      rintro hne _ rfl
      exact absurd rfl hne
    · simp only [outsidePackage?, howner, if_false, Option.some.injEq, declared.injEq]
      constructor
      · rintro rfl
        exact ⟨howner, name, rfl, rfl⟩
      · rintro ⟨-, _, rfl, -⟩
        rfl
  | _ => simp [outsidePackage?]

/-- The packages besides the pool that types refer to. -/
theorem mem_outsidePackages {pool : String} {types : List ResolvedType} {package : String} :
    package ∈ outsidePackages pool types ↔ package ≠ pool ∧
      ∃ t ∈ types, ∃ name, .declared package name ∈ ResolvedType.targets t := by
  simp only [outsidePackages, List.mem_mergeSort, List.mem_eraseDups, List.mem_filterMap,
    List.mem_flatMap, TypeTarget.outsidePackage?_eq_some_iff]
  constructor
  · rintro ⟨target, ⟨t, ht, htarget⟩, hne, name, rfl⟩
    exact ⟨hne, t, ht, name, htarget⟩
  · rintro ⟨hne, t, ht, name, htarget⟩
    exact ⟨_, ⟨t, ht, htarget⟩, hne, name, rfl⟩

/-- Each package is imported once. -/
theorem nodup_outsidePackages (pool : String) (types : List ResolvedType) :
    (outsidePackages pool types).Nodup :=
  (List.mergeSort_perm _ _).nodup_iff.2 (nodup_eraseDups _)

/-- **The packages stand in alphabetical order.** -/
theorem sortedLT_outsidePackages (pool : String) (types : List ResolvedType) :
    (outsidePackages pool types).SortedLT := by
  have hsorted : (outsidePackages pool types).SortedLE :=
    (List.pairwise_mergeSort' (· ≤ ·) _).sortedLE
  exact List.sortedLT_iff_nodup_and_sortedLE.2 ⟨nodup_outsidePackages pool types, hsorted⟩

namespace Emitter

variable {pool poolName : String} {models : List MergedModel} {package other : String}

/-- The package is named under some candidate. -/
theorem exists_aliasOf_eq (pool poolName : String) (models : List MergedModel) (package : String) :
    ∃ k, (ofModels pool poolName models).aliasOf package = numbered (lastSegment package) k := by
  have hassigned : Assigned _ _ (ofModels pool poolName models).aliases := assigned_assignAliases _ _
  unfold aliasOf
  cases hlookup : (ofModels pool poolName models).aliases.lookup package with
  | none => exact ⟨0, rfl⟩
  | some a => exact hassigned.candidates (package, a) (mem_of_lookup_eq_some hlookup)

/-- **The packages that models refer to are those that have got a name.** -/
theorem isSome_lookup_aliases_iff : ((ofModels pool poolName models).aliases.lookup package).isSome ↔
    package ∈ outsidePackages pool (models.flatMap fun m => m.fields.map MergedField.type) := by
  have hassigned : Assigned _ _ (ofModels pool poolName models).aliases := assigned_assignAliases _ _
  rw [← hassigned.keys, Option.isSome_iff_ne_none, ne_eq, List.lookup_eq_none_iff, not_forall,
    List.mem_map]
  constructor
  · rintro ⟨entry, h⟩
    obtain ⟨hentry, hname⟩ := Classical.not_imp.1 h
    exact ⟨entry, hentry, (by simpa using hname : package = entry.1).symm⟩
  · rintro ⟨entry, hentry, rfl⟩
    exact ⟨entry, fun h => by simpa using h hentry⟩

/-- A package that models refer to has got a name. -/
theorem lookup_aliases (h : package ∈ outsidePackages pool (models.flatMap fun m =>
    m.fields.map MergedField.type)) : (ofModels pool poolName models).aliases.lookup package =
      some ((ofModels pool poolName models).aliasOf package) := by
  obtain ⟨bound, hbound⟩ := Option.isSome_iff_exists.1 (isSome_lookup_aliases_iff.2 h)
  rw [aliasOf, hbound]
  rfl

theorem mem_aliases (h : package ∈ outsidePackages pool (models.flatMap fun m =>
    m.fields.map MergedField.type)) :
    (package, (ofModels pool poolName models).aliasOf package) ∈
      (ofModels pool poolName models).aliases :=
  mem_of_lookup_eq_some (lookup_aliases h)

/-- **The name of a package is no model's and no reserved word.** -/
theorem aliasOf_not_mem (h : package ∈ outsidePackages pool (models.flatMap fun m =>
    m.fields.map MergedField.type)) :
    (ofModels pool poolName models).aliasOf package ∉ models.map MergedModel.name ++ reservedAliases := by
  have hassigned : Assigned _ _ (ofModels pool poolName models).aliases := assigned_assignAliases _ _
  exact hassigned.fresh _ (mem_aliases h)

/-- **Two packages have two names.** -/
theorem eq_of_aliasOf_eq
    (h : package ∈ outsidePackages pool (models.flatMap fun m => m.fields.map MergedField.type))
    (h' : other ∈ outsidePackages pool (models.flatMap fun m => m.fields.map MergedField.type))
    (heq : (ofModels pool poolName models).aliasOf package =
      (ofModels pool poolName models).aliasOf other) : package = other := by
  have hassigned : Assigned _ _ (ofModels pool poolName models).aliases := assigned_assignAliases _ _
  have hsame := List.inj_on_of_nodup_map hassigned.nodup (@mem_aliases pool poolName models _ h)
    (@mem_aliases pool poolName models _ h') heq
  exact congrArg Prod.fst hsame

end Emitter

/-! ## Last segments -/

/-- **The last segment of a path's text** is what the path ends in, if this has no colon. -/
theorem lastSegment_pathText {segments : List String} {last : String}
    (hlast : segments.getLast? = some last) (h : ':' ∉ last.toList) :
    lastSegment (pathText segments) = last := by
  have hreverse : ':' ∉ last.toList.reverse := by simpa using h
  have hhead : ∀ {cs : List Char}, (pathText segments).toList.reverse = cs →
      ∀ (parts : List (List Char)) (hparts : splitColons cs = parts) (hne : parts ≠ []),
        lastSegment (pathText segments) = String.ofList (parts.head hne).reverse := by
    rintro _ rfl _ rfl _
    rfl
  cases segments with
  | nil => exact absurd hlast (by simp)
  | cons first r =>
    rcases List.eq_nil_or_concat r with rfl | ⟨init, last', rfl⟩
    · obtain rfl : first = last := by simpa using hlast
      have htext : (pathText [first]).toList.reverse = first.toList.reverse := by simp [pathText]
      rw [hhead htext _ (splitColons_of_not_mem hreverse) (by simp)]
      simp
    · rw [List.concat_eq_append, ← List.cons_append, List.getLast?_concat] at hlast
      obtain rfl := Option.some.inj hlast
      have htext : (pathText (first :: init.concat last')).toList.reverse =
          last'.toList.reverse ++ ':' :: ':' :: (pathText (first :: init)).toList.reverse := by
        rw [toList_pathText_cons, toList_pathText_cons]
        simp
      rw [hhead htext _ (splitColons_append hreverse _) (by simp)]
      simp

end ModelPool
