/-!
# Files/Path — paths as texts, and the steps they consist of

A path keeps the text it was given, since messages repeat it.  What it means is in its *pieces*, the
texts between its slashes, and in its components, which leave out empty pieces and those of a single
dot.

* `not_mem_of_mem_pieces` — no piece has a slash.
* `IsName` — the pieces that name what stands in a directory.
* `join_absolute` — joining an absolute path forgets the path before it.
-/

namespace ModelPool

/-! ## Texts between slashes -/

/-- Cuts a text at every slash. -/
def pieces : List Char → List (List Char)
  | [] => [[]]
  | c :: r =>
    if c = '/' then [] :: pieces r
    else
      match pieces r with
      | [] => [[c]]
      | p :: ps => (c :: p) :: ps

/-- There is always a first piece. -/
theorem pieces_ne_nil (cs : List Char) : pieces cs ≠ [] := by
  fun_cases pieces cs <;> simp_all

/-- No piece has a slash. -/
theorem not_mem_of_mem_pieces {p cs : List Char} (h : p ∈ pieces cs) : '/' ∉ p := by
  induction cs generalizing p with
  | nil => simp_all [pieces]
  | cons c cs ih =>
    unfold pieces at h
    split at h
    · rcases List.mem_cons.1 h with rfl | h
      · exact List.not_mem_nil
      · exact ih h
    · next hc =>
      split at h
      · next heq => exact absurd heq (pieces_ne_nil cs)
      · next q qs heq =>
        rcases List.mem_cons.1 h with rfl | h
        · have hq : '/' ∉ q := ih (by simp [heq])
          simpa [hq] using Ne.symm hc
        · exact ih (by simp [heq, h])

/-! ## Paths -/

/-- **A path**, as it was written. -/
structure FilePath where
  text : String
deriving DecidableEq

/-- One step of a path. -/
inductive Component where
  | root
  | here
  | up
  | name (s : String)
deriving DecidableEq

/-- The text of a step. -/
def Component.text : Component → String
  | root => "/"
  | here => "."
  | up => ".."
  | name s => s

/-- **A piece that can be a name**: it is not empty, does not stand for a step, and has no slash. -/
structure IsName (piece : String) : Prop where
  ne_empty : piece ≠ ""
  ne_here : piece ≠ "."
  ne_up : piece ≠ ".."
  no_slash : '/' ∉ piece.toList

/-- The most bytes that the name of an entry has. -/
def longestName : Nat := 255

/-- A piece that is not too long for the name of an entry. -/
def fits (piece : String) : Bool := decide (piece.utf8ByteSize ≤ longestName)

@[simp] theorem fits_empty : fits "" = true := by decide

/-- **The name of an entry**: a piece that can be a name and is not too long for one. -/
structure IsEntryName (piece : String) : Prop extends IsName piece where
  fits : fits piece = true

namespace FilePath

/-- A path that starts at the root. -/
def isAbsolute (p : FilePath) : Bool := p.text.toList.head? = some '/'

/-- The texts between the slashes of a path. -/
def parts (p : FilePath) : List String := (pieces p.text.toList).map String.ofList

/-- The step that a piece stands for; empty pieces and single dots stand for none. -/
def step? (piece : String) : Option Component :=
  if piece = "" ∨ piece = "." then none
  else if piece = ".." then some .up
  else some (.name piece)

/-- What is stepped into has a name. -/
theorem isName_of_step? {piece name : String} (h : step? piece = some (.name name))
    (hslash : '/' ∉ piece.toList) : IsName name := by
  unfold step? at h
  split at h
  · simp at h
  · next hne =>
    split at h
    · simp at h
    · next hup =>
      obtain rfl : piece = name := by simpa using h
      exact ⟨fun e => hne (.inl e), fun e => hne (.inr e), hup, hslash⟩

/-- A name that is stepped into is its own piece. -/
theorem eq_of_step?_name {piece name : String} (h : step? piece = some (.name name)) : piece = name := by
  unfold step? at h
  split at h
  · simp at h
  · split at h
    · simp at h
    · simpa using h

/-- And each name is stepped into. -/
theorem step?_name {name : String} (h : IsName name) : step? name = some (.name name) := by
  simp [step?, h.ne_empty, h.ne_here, h.ne_up]

/-- No part has a slash. -/
theorem not_mem_of_mem_parts {p : FilePath} {piece : String} (h : piece ∈ p.parts) :
    '/' ∉ piece.toList := by
  obtain ⟨cs, hcs, rfl⟩ := List.mem_map.1 h
  rw [String.toList_ofList]
  exact not_mem_of_mem_pieces hcs

/-- **The steps of a path.**  A single dot counts only where the path begins with it. -/
def components (p : FilePath) : List Component :=
  match p.parts with
  | [] => []
  | first :: r =>
    if p.isAbsolute then .root :: r.filterMap step?
    else if first = "." then .here :: r.filterMap step?
    else (first :: r).filterMap step?

/-- The path of these steps. -/
def ofComponents : List Component → FilePath
  | .root :: cs => ⟨Component.root.text ++ "/".intercalate (cs.map Component.text)⟩
  | cs => ⟨"/".intercalate (cs.map Component.text)⟩

/-- The path of a place below the root. -/
def ofPlace (names : List String) : FilePath := ⟨"/" ++ "/".intercalate names⟩

/-- **A path seen from another one.**  An absolute path stands for itself. -/
def join (p q : FilePath) : FilePath :=
  if q.isAbsolute then q
  else if p.text.isEmpty || p.text.toList.getLast? = some '/' then ⟨p.text ++ q.text⟩
  else ⟨p.text ++ "/" ++ q.text⟩

/-- A name inside the directory at a path. -/
def child (p : FilePath) (name : String) : FilePath := p.join ⟨name⟩

/-- Joining an absolute path forgets the path before it. -/
theorem join_absolute (p : FilePath) {q : FilePath} (h : q.isAbsolute = true) : p.join q = q := by
  simp [join, h]

/-- The path without its last step; none for a root and for an empty path. -/
def parent? (p : FilePath) : Option FilePath :=
  match p.components.getLast? with
  | none | some .root => none
  | some _ => some (ofComponents p.components.dropLast)

/-- The paths of the directories that a path goes through, innermost first. -/
def above (p : FilePath) : List FilePath :=
  (List.range p.components.length).reverse.filterMap fun n =>
    if n = 0 then none else some (ofComponents (p.components.take n))

/-- The last step, if it is a name. -/
def fileName? (p : FilePath) : Option String :=
  match p.components.getLast? with
  | some (.name s) => some s
  | _ => none

/-- A name's text behind its last dot; a dot at its start counts for nothing. -/
def extensionOf? (name : String) : Option String :=
  let reversed := name.toList.reverse
  match reversed.dropWhile (· != '.') with
  | [] | ['.'] => none
  | _ => some (String.ofList (reversed.takeWhile (· != '.')).reverse)

/-- The ending of a path's last name. -/
def extension? (p : FilePath) : Option String := p.fileName?.bind extensionOf?

/-- What is left of steps behind the first ones, if they begin with these. -/
def stepsBelow? : List Component → List Component → Option (List Component)
  | [], steps => some steps
  | _ :: _, [] => none
  | a :: above, s :: steps => if a = s then stepsBelow? above steps else none

/-- **The steps from one path down to another**, if the first contains the second. -/
def below? (above p : FilePath) : Option (List Component) :=
  stepsBelow? above.components p.components

/-- Steps lead down exactly to what begins with the first ones. -/
theorem stepsBelow?_eq_some_iff {above steps rest : List Component} :
    stepsBelow? above steps = some rest ↔ steps = above ++ rest := by
  induction above generalizing steps with
  | nil => simp [stepsBelow?]
  | cons a above ih =>
    cases steps with
    | nil => simp [stepsBelow?]
    | cons s steps =>
      by_cases h : a = s
      · simp [stepsBelow?, h, ih]
      · simp [stepsBelow?, h, Ne.symm h]

/-- The path without the slashes at its end; a root stays. -/
def withoutEndSlashes (p : FilePath) : FilePath :=
  match p.text.toList.reverse.dropWhile (· == '/') with
  | [] => if p.isAbsolute then ⟨"/"⟩ else p
  | cs => ⟨String.ofList cs.reverse⟩

end FilePath

end ModelPool
