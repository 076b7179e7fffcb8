import Std.Data.ExtTreeMap
import ModelPool.Files.Path

/-!
# Files/Tree — directories and files as a value

A tree says what stands at each place: nothing, a directory, or a file with its bytes.  What contains
an entry is always a directory, and what stands somewhere has a name.  Two trees with the same entries
are the same tree, so an operation that reads a tree cannot tell them apart.

* `FileTree.ext_at?` — a tree is known from what stands at its places.
* `at?_write`, `at?_removeBelow` — what the two changes do to each place.
-/

namespace ModelPool

/-- **A place**: the names from the root down to it. -/
abbrev Place := List String

/-- What stands at a place. -/
inductive Entry where
  | directory
  | file (bytes : ByteArray)

instance : DecidableEq Entry
  | .directory, .directory => isTrue rfl
  | .directory, .file _ => isFalse nofun
  | .file _, .directory => isFalse nofun
  | .file bytes, .file other =>
    decidable_of_iff (bytes.data.toList = other.data.toList)
      ⟨fun h => congrArg Entry.file (ByteArray.ext (Array.toList_inj.1 h)),
        fun h => by rw [Entry.file.inj h]⟩

/-- **A tree of files**, with the directory that relative paths start from. -/
structure FileTree where
  entries : Std.ExtTreeMap Place Entry compare
  current : Place
  root_not_mem : [] ∉ entries
  isEntryName : ∀ place ∈ entries, ∀ name ∈ place, IsEntryName name
  isEntryName_current : ∀ name ∈ current, IsEntryName name
  parent_directory : ∀ place name, place ++ [name] ∈ entries →
    place = [] ∨ entries[place]? = some .directory

namespace FileTree

/-! ## Looking at a place -/

/-- What stands at a place; the root is always a directory. -/
def at? (t : FileTree) (place : Place) : Option Entry :=
  if place = [] then some .directory else t.entries[place]?

@[simp] theorem at?_root (t : FileTree) : t.at? [] = some .directory := by simp [at?]

/-- Below the root, the map says what stands at a place. -/
theorem at?_of_ne (t : FileTree) {place : Place} (h : place ≠ []) :
    t.at? place = t.entries[place]? := by
  simp [at?, h]

/-- **What contains an entry is a directory.** -/
theorem at?_parent (t : FileTree) {place : Place} {name : String} {e : Entry}
    (h : t.at? (place ++ [name]) = some e) : t.at? place = some .directory := by
  rw [t.at?_of_ne (by simp)] at h
  have hmem : place ++ [name] ∈ t.entries := by
    rw [Std.ExtTreeMap.mem_iff_isSome_getElem?, h]; rfl
  rcases t.parent_directory place name hmem with rfl | hd
  · simp
  · by_cases hp : place = []
    · simp [hp]
    · rw [t.at?_of_ne hp, hd]

/-- **Places where something stands have names.** -/
theorem isEntryName_of_at? (t : FileTree) {place : Place} {e : Entry} (h : t.at? place = some e) :
    ∀ name ∈ place, IsEntryName name := by
  by_cases hp : place = []
  · simp [hp]
  · rw [t.at?_of_ne hp] at h
    exact t.isEntryName place (by rw [Std.ExtTreeMap.mem_iff_isSome_getElem?, h]; rfl)

theorem isName_of_at? (t : FileTree) {place : Place} {e : Entry} (h : t.at? place = some e) :
    ∀ name ∈ place, IsName name := fun name hname => (t.isEntryName_of_at? h name hname).toIsName

/-- **A tree is known from what stands at its places.** -/
theorem ext_at? {t u : FileTree} (hc : t.current = u.current)
    (h : ∀ place, t.at? place = u.at? place) : t = u := by
  have he : t.entries = u.entries := by
    apply Std.ExtTreeMap.ext_getElem?
    intro place
    by_cases hp : place = []
    · subst hp
      rw [Std.ExtTreeMap.getElem?_eq_none t.root_not_mem,
        Std.ExtTreeMap.getElem?_eq_none u.root_not_mem]
    · rw [← t.at?_of_ne hp, ← u.at?_of_ne hp, h]
  cases t; cases u; simp_all

/-- The tree without any entry, seen from its root. -/
def empty : FileTree where
  entries := ∅
  current := []
  root_not_mem := Std.ExtTreeMap.not_mem_empty
  isEntryName := fun _ h => absurd h Std.ExtTreeMap.not_mem_empty
  isEntryName_current := fun _ h => absurd h List.not_mem_nil
  parent_directory := fun _ _ h => absurd h Std.ExtTreeMap.not_mem_empty

/-- The names inside a directory, in order. -/
def namesIn (t : FileTree) (place : Place) : List String :=
  t.entries.keys.filterMap fun k => if k.dropLast = place then k.getLast? else none

/-- **The places of directories**, the root first. -/
def directories (t : FileTree) : List Place :=
  [] :: t.entries.keys.filter fun k => t.entries[k]? = some .directory

/-- They are the places where a directory stands. -/
theorem mem_directories {t : FileTree} {place : Place} :
    place ∈ t.directories ↔ t.at? place = some .directory := by
  by_cases hp : place = []
  · simp [hp, directories]
  · rw [t.at?_of_ne hp]
    simp only [directories, List.mem_cons, hp, false_or, List.mem_filter, decide_eq_true_eq,
      Std.ExtTreeMap.mem_keys]
    exact ⟨And.right, fun h => ⟨by rw [Std.ExtTreeMap.mem_iff_isSome_getElem?, h]; rfl, h⟩⟩

/-- The files at a place and below it, in order. -/
def filesBelow (t : FileTree) (place : Place) : List (Place × ByteArray) :=
  t.entries.toList.filterMap fun (k, e) =>
    match e with
    | .file bytes => if place.isPrefixOf k then some (k, bytes) else none
    | .directory => none

/-! ## Changing a tree -/

/-- **Puts an entry at a place** inside a directory; a directory is never put out of place. -/
def write (t : FileTree) (place : Place) (e : Entry) (hne : place ≠ [])
    (hnames : ∀ name ∈ place, IsEntryName name) (hparent : t.at? place.dropLast = some .directory)
    (hkeep : t.at? place = some .directory → e = .directory) : FileTree where
  entries := t.entries.insert place e
  current := t.current
  isEntryName := by
    intro other h
    rcases Std.ExtTreeMap.mem_insert.1 h with h | h
    · rw [← Std.LawfulEqCmp.eq_of_compare h]
      exact hnames
    · exact t.isEntryName other h
  isEntryName_current := t.isEntryName_current
  root_not_mem := by
    rw [Std.ExtTreeMap.mem_insert]
    rintro (h | h)
    · exact hne (Std.LawfulEqCmp.eq_of_compare h)
    · exact t.root_not_mem h
  parent_directory := by
    intro above name h
    by_cases hab : above = []
    · exact .inl hab
    · right
      rw [Std.ExtTreeMap.getElem?_insert]
      rw [Std.ExtTreeMap.mem_insert] at h
      by_cases hpa : place = above
      · subst hpa
        have hold : place ++ [name] ∈ t.entries := by
          rcases h with h | h
          · exact absurd (Std.LawfulEqCmp.eq_of_compare h) (by simp)
          · exact h
        rcases t.parent_directory _ _ hold with hn | hd
        · exact absurd hn hab
        · have := hkeep (by rw [t.at?_of_ne hne, hd])
          simp [this]
      · have hcmp : compare place above ≠ .eq := fun hc =>
          hpa (Std.LawfulEqCmp.eq_of_compare hc)
        rw [if_neg hcmp]
        rcases h with h | h
        · have hpl := Std.LawfulEqCmp.eq_of_compare h
          subst hpl
          simpa [t.at?_of_ne hab] using hparent
        · exact (t.parent_directory _ _ h).resolve_left hab

/-- **The written place holds the entry, and no other place has changed.** -/
theorem at?_write (t : FileTree) {place : Place} {e : Entry} (hne hnames hparent hkeep)
    (other : Place) :
    (t.write place e hne hnames hparent hkeep).at? other =
      if other = place then some e else t.at? other := by
  by_cases ho : other = []
  · subst ho
    simp [Ne.symm hne]
  · rw [at?_of_ne _ ho, at?_of_ne _ ho]
    show (t.entries.insert place e)[other]? = _
    rw [Std.ExtTreeMap.getElem?_insert]
    by_cases h : other = place
    · subst h; simp
    · have hcmp : compare place other ≠ .eq := fun hc =>
        h (Std.LawfulEqCmp.eq_of_compare hc).symm
      simp [h, hcmp]

/-- **Removes what stands at a place and everything below it.** -/
def removeBelow (t : FileTree) (place : Place) : FileTree where
  entries := t.entries.filter fun k _ => !place.isPrefixOf k
  current := t.current
  root_not_mem := fun h => t.root_not_mem (Std.ExtTreeMap.mem_of_mem_filter h)
  isEntryName := fun other h => t.isEntryName other (Std.ExtTreeMap.mem_of_mem_filter h)
  isEntryName_current := t.isEntryName_current
  parent_directory := by
    intro above name h
    have hold := Std.ExtTreeMap.mem_of_mem_filter h
    rcases t.parent_directory above name hold with hn | hd
    · exact .inl hn
    · right
      rw [Std.ExtTreeMap.getElem?_filter', hd]
      rw [Std.ExtTreeMap.mem_iff_isSome_getElem?, Std.ExtTreeMap.getElem?_filter'] at h
      have hkept : place.isPrefixOf (above ++ [name]) = false := by
        cases he : t.entries[above ++ [name]]? with
        | none => simp [he] at h
        | some e =>
          cases hp : place.isPrefixOf (above ++ [name]) with
          | false => rfl
          | true => simp [he, Option.filter, hp] at h
      have : place.isPrefixOf above = false := by
        rw [Bool.eq_false_iff] at hkept ⊢
        intro hp
        exact hkept (List.isPrefixOf_iff_prefix.2
          ((List.isPrefixOf_iff_prefix.1 hp).trans (List.prefix_append _ _)))
      simp [Option.filter, this]

/-- **Nothing stands at or below the removed place, and all else is left.** -/
theorem at?_removeBelow (t : FileTree) {place : Place} (hne : place ≠ []) (other : Place) :
    (t.removeBelow place).at? other =
      if place <+: other then none else t.at? other := by
  by_cases ho : other = []
  · subst ho
    simp [hne]
  · rw [at?_of_ne _ ho, at?_of_ne _ ho]
    show (t.entries.filter fun k _ => !place.isPrefixOf k)[other]? = _
    rw [Std.ExtTreeMap.getElem?_filter']
    by_cases hp : place <+: other
    · have := List.isPrefixOf_iff_prefix.2 hp
      cases t.entries[other]? <;> simp [Option.filter, this, hp]
    · have : place.isPrefixOf other = false := by
        rw [Bool.eq_false_iff]
        exact fun h => hp (List.isPrefixOf_iff_prefix.1 h)
      cases t.entries[other]? <;> simp [Option.filter, this, hp]

end FileTree

end ModelPool
