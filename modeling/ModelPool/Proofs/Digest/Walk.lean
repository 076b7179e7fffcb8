import ModelPool.Proofs.Files.Directories

/-!
# Proofs/Digest/Walk — the order in which a tree is walked

    pool/a/x.rs      a comes before a.rs, so what is in a comes first
    pool/a.rs
    pool/b.rs

A directory is walked name by name in the order of its names, whatever order it lists them in, and what is below
a name comes before the next name.  The files are met in the order of their places, so a walk gives the files
below a place as they stand in the tree.

* `FileTree.walk` — the files in the order of a walk.
* `FileTree.walk_eq_filesBelow` — the order in which directories list their names makes no difference.
-/

namespace ModelPool

namespace FileTree

variable {t : FileTree} {place : Place} {name : String} {e : Entry}

/-! ## Places below one another -/

/-- Where something stands, all that contains it is a directory, name by name. -/
theorem at?_above {rest : Place} (h : t.at? (place ++ name :: rest) = some e) :
    t.at? place = some .directory ∧ (t.at? (place ++ [name])).isSome = true := by
  have hbelow : place ++ [name] <+: place ++ name :: rest := ⟨rest, by simp⟩
  cases hchild : t.at? (place ++ [name]) with
  | none => exact absurd (h.symm.trans (at?_below hchild hbelow)) (by simp)
  | some e' => exact ⟨t.at?_parent hchild, rfl⟩

/-- More names than any place has where something stands. -/
def nameCount (t : FileTree) : Nat := t.entries.keys.flatten.length + 1

theorem length_lt_nameCount (h : t.at? place = some e) : place.length < t.nameCount := by
  unfold nameCount
  by_cases hroot : place = []
  · simp [hroot]
  · rw [t.at?_of_ne hroot] at h
    have hmem : place ∈ t.entries.keys :=
      Std.ExtTreeMap.mem_keys.2 (Std.ExtTreeMap.mem_iff_isSome_getElem?.2 (by rw [h]; rfl))
    exact Nat.lt_succ_of_le (List.sublist_flatten_of_mem hmem).length_le

/-! ## Walking -/

/-- **How directories may list what is in them**: each name once, in any order. -/
structure IsListing (t : FileTree) (listed : Place → List String) : Prop where
  nodup : ∀ place, (listed place).Nodup
  mem_iff : ∀ place name, name ∈ listed place ↔ (t.at? (place ++ [name])).isSome = true

/-- The names in a directory are listed in order, or the other way round. -/
theorem isListing_reverse (t : FileTree) : t.IsListing fun place => (t.namesIn place).reverse where
  nodup place := List.nodup_reverse.2 (t.nodup_namesIn place)
  mem_iff _ _ := List.mem_reverse.trans mem_namesIn

/-- Names in their order. -/
def inOrder (names : List String) : List String := names.mergeSort fun a b => (compare a b).isLE

/-- **The files at a place and below it, as a walk meets them**: each directory is listed and its names are put in
order, and then it is walked name by name. -/
def walk (t : FileTree) (listed : Place → List String) (place : Place) : List (Place × ByteArray) :=
  match _h : t.at? place with
  | none => []
  | some (.file bytes) => [(place, bytes)]
  | some .directory => (inOrder (listed place)).flatMap fun name => t.walk listed (place ++ [name])
termination_by t.nameCount - place.length
decreasing_by
  have := length_lt_nameCount _h
  simp only [List.length_append, List.length_singleton]
  omega

theorem mem_inOrder {names : List String} : name ∈ inOrder names ↔ name ∈ names :=
  (List.mergeSort_perm names _).mem_iff

/-- Names that are listed once stand in their order. -/
theorem pairwise_inOrder {names : List String} (h : names.Nodup) :
    (inOrder names).Pairwise fun a b => compare a b = .lt := by
  have htotal : ∀ a b : String, ((compare a b).isLE || (compare b a).isLE) = true := by
    intro a b
    have hswap : compare b a = (compare a b).swap := Std.OrientedCmp.eq_swap
    rw [hswap]
    cases compare a b <;> rfl
  have hsorted : (inOrder names).Pairwise fun a b => (compare a b).isLE = true :=
    List.pairwise_mergeSort (fun _ _ _ => Std.TransCmp.isLE_trans) htotal names
  have hnodup : (inOrder names).Nodup := (List.mergeSort_perm names _).nodup_iff.2 h
  refine (hsorted.and hnodup).imp fun {a b} hab => ?_
  cases hcompare : compare a b with
  | lt => rfl
  | eq => exact absurd (Std.LawfulEqCmp.eq_of_compare hcompare) hab.2
  | gt => exact absurd hab.1 (by simp [hcompare])

/-- **The files that a walk meets** are those at the place and below it. -/
theorem mem_walk_iff {listed : Place → List String} (hlisted : t.IsListing listed) {k : Place} {bytes : ByteArray} :
    (k, bytes) ∈ t.walk listed place ↔ place <+: k ∧ t.at? k = some (.file bytes) := by
  fun_induction walk t listed place with
  | case1 place hnone =>
    refine iff_of_false List.not_mem_nil fun ⟨hbelow, hfile⟩ => ?_
    exact absurd ((at?_below hnone hbelow).symm.trans hfile) (by simp)
  | case2 place held hheld =>
    rw [List.mem_singleton]
    constructor
    · rintro ⟨⟩
      exact ⟨List.prefix_rfl, hheld⟩
    · rintro ⟨⟨rest, rfl⟩, hfile⟩
      cases rest with
      | nil => simp_all
      | cons name rest => exact absurd ((at?_above hfile).1.symm.trans hheld) (by simp)
  | case3 place hdirectory ih =>
    simp only [List.mem_flatMap, mem_inOrder, ih]
    constructor
    · rintro ⟨name, -, hbelow, hfile⟩
      exact ⟨(List.prefix_append _ _).trans hbelow, hfile⟩
    · rintro ⟨⟨rest, rfl⟩, hfile⟩
      cases rest with
      | nil => exact absurd (hfile.symm.trans (by simpa using hdirectory)) (by simp)
      | cons name rest =>
        exact ⟨name, (hlisted.mem_iff place name).2 (at?_above hfile).2, ⟨rest, by simp⟩, hfile⟩

/-! ## Order -/

/-- The first name that differs decides. -/
theorem compare_below {name' : String} (h : compare name name' = .lt) (a b : Place) :
    compare (place ++ [name] ++ a) (place ++ [name'] ++ b) = .lt := by
  rw [List.append_assoc, List.append_assoc, compare_append, List.singleton_append, List.singleton_append,
    List.compare_cons_cons, h]
  rfl

/-- What stands at one place comes before what stands at another. -/
abbrev Before {β : Type} (a b : Place × β) : Prop := compare a.1 b.1 = .lt

instance {β : Type} : Std.Antisymm (@Before β) where
  antisymm a b hab hba := by
    rw [Before, Std.OrientedCmp.gt_of_lt hab] at hba
    exact absurd hba (by decide)

instance {β : Type} : Std.Irrefl (@Before β) where
  irrefl a h := by
    have hself : compare a.1 a.1 = .eq := Std.ReflCmp.compare_self
    exact absurd (hself.symm.trans h) (by decide)

/-- **A walk meets the files in the order of their places.** -/
theorem pairwise_walk {listed : Place → List String} (hlisted : t.IsListing listed) (place : Place) :
    (t.walk listed place).Pairwise Before := by
  fun_induction walk t listed place with
  | case1 => exact .nil
  | case2 => exact List.pairwise_singleton _ _
  | case3 place hdirectory ih =>
    refine List.pairwise_flatMap.2 ⟨fun name _ => ih name, ?_⟩
    refine (pairwise_inOrder (hlisted.nodup place)).imp fun {name name'} hlt a ha b hb => ?_
    -- what is below a name stands with that name in front
    obtain ⟨⟨restA, hA⟩, -⟩ := (mem_walk_iff hlisted).1 ha
    obtain ⟨⟨restB, hB⟩, -⟩ := (mem_walk_iff hlisted).1 hb
    rw [Before, ← hA, ← hB]
    exact compare_below hlt restA restB

theorem mem_filesBelow_iff {k : Place} {bytes : ByteArray} :
    (k, bytes) ∈ t.filesBelow place ↔ place <+: k ∧ t.at? k = some (.file bytes) := by
  have hat : t.at? k = some (.file bytes) ↔ (k, .file bytes) ∈ t.entries.toList := by
    rw [Std.ExtTreeMap.mem_toList_iff_getElem?_eq_some]
    by_cases hroot : k = []
    · rw [hroot, at?_root, Std.ExtTreeMap.getElem?_eq_none t.root_not_mem]
      simp
    · rw [t.at?_of_ne hroot]
  rw [hat, filesBelow, List.mem_filterMap, ← List.isPrefixOf_iff_prefix]
  constructor
  · rintro ⟨⟨k', e⟩, hmem, hkept⟩
    cases e with
    | directory => exact absurd hkept (by simp)
    | file held =>
      obtain ⟨hbelow, hpair⟩ := Option.ite_none_right_eq_some.1 hkept
      obtain ⟨rfl, rfl⟩ := Prod.mk.inj (Option.some.inj hpair)
      exact ⟨hbelow, hmem⟩
  · rintro ⟨hbelow, hmem⟩
    exact ⟨_, hmem, if_pos hbelow⟩

theorem pairwise_filesBelow (t : FileTree) (place : Place) : (t.filesBelow place).Pairwise Before := by
  refine List.Pairwise.filterMap _ (fun a a' hlt b hb b' hb' => ?_) t.entries.ordered_keys_toList
  obtain ⟨k, e⟩ := a
  obtain ⟨k', e'⟩ := a'
  cases e with
  | directory => exact absurd hb (by simp)
  | file held =>
    cases e' with
    | directory => exact absurd hb' (by simp)
    | file held' =>
      obtain ⟨-, hpair⟩ := Option.ite_none_right_eq_some.1 hb
      obtain ⟨-, hpair'⟩ := Option.ite_none_right_eq_some.1 hb'
      rw [Before, ← Option.some.inj hpair, ← Option.some.inj hpair']
      exact hlt

/-- **The order in which directories list their names makes no difference** to a walk. -/
theorem walk_eq_filesBelow {listed : Place → List String} (hlisted : t.IsListing listed) (place : Place) :
    t.walk listed place = t.filesBelow place :=
  List.Pairwise.eq_of_mem_iff (pairwise_walk hlisted place) (pairwise_filesBelow t place) fun _ =>
    (mem_walk_iff hlisted).trans mem_filesBelow_iff.symm

end FileTree

end ModelPool
