import ModelPool.Files.Tree
import ModelPool.Text.Utf8

/-!
# Files/Access — reading and changing a tree through paths

A path is followed piece by piece: each piece has to be looked up in a directory, also an empty one
and one of dots, so a path with a slash at its end leads to a directory or nowhere.  A piece that is too
long for a name is told of where it is looked up.  Every change gives the changed tree or the reason why
it cannot be made.

* `locate_append` — following two pieces of a path is following the first, then the second.
* `readCharacters_of_find` — a file that holds the bytes of a text is read as that text.
-/

namespace ModelPool

/-! ## Failures -/

/-- **Why a path cannot be read or changed.** -/
inductive IoError where
  | notFound
  | notDirectory
  | isDirectory
  | alreadyThere
  | busy
  | nameTooLong
  | notText
deriving DecidableEq

/-- The text of a failure. -/
def IoError.message : IoError → String
  | notFound => "No such file or directory (os error 2)"
  | notDirectory => "Not a directory (os error 20)"
  | isDirectory => "Is a directory (os error 21)"
  | alreadyThere => "File exists (os error 17)"
  | busy => "Device or resource busy (os error 16)"
  | nameTooLong => "File name too long (os error 36)"
  | notText => "stream did not contain valid UTF-8"

namespace FileTree

/-! ## Following a path -/

/-- **The place that pieces lead to**, from a place that has been reached. -/
def locate (t : FileTree) : Place → List String → Except IoError Place
  | place, [] => .ok place
  | place, piece :: r =>
    match t.at? place with
    | none => .error .notFound
    | some (.file _) => .error .notDirectory
    | some .directory =>
      if fits piece then
        match FilePath.step? piece with
        | some .up => locate t place.dropLast r
        | some (.name name) => locate t (place ++ [name]) r
        | _ => locate t place r
      else .error .nameTooLong

/-- Following two pieces of a path is following the first, then the second. -/
theorem locate_append (t : FileTree) (place : Place) (ps qs : List String) :
    t.locate place (ps ++ qs) = (t.locate place ps).bind fun q => t.locate q qs := by
  induction ps generalizing place with
  | nil => rfl
  | cons p ps ih =>
    simp only [List.cons_append, locate]
    split <;> try rfl
    split
    · split <;> exact ih _
    · rfl

/-- What is reached has names. -/
theorem isEntryName_of_locate (t : FileTree) {place q : Place} {ps : List String}
    (hplace : ∀ name ∈ place, IsEntryName name) (hps : ∀ piece ∈ ps, '/' ∉ piece.toList)
    (h : t.locate place ps = .ok q) : ∀ name ∈ q, IsEntryName name := by
  induction ps generalizing place with
  | nil =>
    obtain rfl : place = q := by simpa [locate] using h
    exact hplace
  | cons piece r ih =>
    have hr : ∀ p ∈ r, '/' ∉ p.toList := fun p hp => hps p (List.mem_cons_of_mem _ hp)
    unfold locate at h
    split at h
    · simp at h
    · simp at h
    · split at h
      · next hfits =>
        split at h
        · exact ih (fun name hn => hplace name (List.dropLast_subset _ hn)) hr h
        · next name hstep =>
          refine ih (fun n hn => ?_) hr h
          rcases List.mem_append.1 hn with hn | hn
          · exact hplace n hn
          · rw [List.mem_singleton.1 hn]
            have hname := FilePath.isName_of_step? hstep (hps piece List.mem_cons_self)
            exact ⟨hname, FilePath.eq_of_step?_name hstep ▸ hfits⟩
        · exact ih hplace hr h
      · simp at h

/-- **The place that a path leads to**, which may be empty. -/
def place (t : FileTree) (p : FilePath) : Except IoError Place :=
  if p.text.isEmpty then .error .notFound
  else if p.isAbsolute then t.locate [] p.parts
  else t.locate t.current p.parts

/-- And so has the place that a path leads to. -/
theorem isEntryName_of_place (t : FileTree) {p : FilePath} {q : Place} (h : t.place p = .ok q) :
    ∀ name ∈ q, IsEntryName name := by
  have hparts : ∀ piece ∈ p.parts, '/' ∉ piece.toList := fun _ => FilePath.not_mem_of_mem_parts
  unfold place at h
  split at h
  · simp at h
  · split at h
    · exact t.isEntryName_of_locate (by simp) hparts h
    · exact t.isEntryName_of_locate t.isEntryName_current hparts h

/-- What a path leads to, and where. -/
def find (t : FileTree) (p : FilePath) : Except IoError (Place × Entry) := do
  let place ← t.place p
  match t.at? place with
  | some e => .ok (place, e)
  | none => .error .notFound

/-- **What is found stands at the place that the path leads to.** -/
theorem find_eq_ok_iff (t : FileTree) {p : FilePath} {place : Place} {e : Entry} :
    t.find p = .ok (place, e) ↔ t.place p = .ok place ∧ t.at? place = some e := by
  unfold find
  cases hp : t.place p with
  | error e => simp [bind, Except.bind]
  | ok q =>
    cases he : t.at? q with
    | none =>
      simp only [bind, Except.bind, he, reduceCtorEq, Except.ok.injEq, false_iff, not_and]
      rintro rfl
      simp [he]
    | some e' =>
      simp only [bind, Except.bind, he, Except.ok.injEq, Prod.mk.injEq]
      constructor
      · rintro ⟨rfl, rfl⟩
        exact ⟨rfl, he⟩
      · rintro ⟨rfl, h⟩
        exact ⟨rfl, by simpa [he] using h⟩

/-- The path leads to something. -/
def exists? (t : FileTree) (p : FilePath) : Bool := (t.find p).isOk

/-- The path leads to a directory. -/
def isDirectory (t : FileTree) (p : FilePath) : Bool :=
  match t.find p with
  | .ok (_, .directory) => true
  | _ => false

/-- The path leads to a file. -/
def isFile (t : FileTree) (p : FilePath) : Bool :=
  match t.find p with
  | .ok (_, .file _) => true
  | _ => false

/-- The absolute path, free of dots, of what a path leads to. -/
def canonical (t : FileTree) (p : FilePath) : Except IoError FilePath :=
  (t.find p).map fun found => .ofPlace found.1

/-- **The canonical path**, or the path itself where it leads to nothing. -/
def normalized (t : FileTree) (p : FilePath) : FilePath :=
  match t.canonical p with
  | .ok q => q
  | .error _ => p

/-- **A directory's canonical path is that of its place.** -/
theorem exists_normalized_of_isDirectory {t : FileTree} {p : FilePath}
    (h : t.isDirectory p = true) :
    ∃ place ∈ t.directories, t.normalized p = .ofPlace place := by
  unfold isDirectory at h
  split at h
  · next place hf =>
    refine ⟨place, ?_, by simp [normalized, canonical, hf, Except.map]⟩
    exact mem_directories.2 (t.find_eq_ok_iff.1 hf).2
  · simp at h

/-- **The tree seen from a directory**, from which relative paths then start. -/
def enter (t : FileTree) (p : FilePath) : Except IoError FileTree :=
  match h : t.find p with
  | .error e => .error e
  | .ok (_, .file _) => .error .notDirectory
  | .ok (place, .directory) =>
    .ok { t with
      current := place
      isEntryName_current := t.isEntryName_of_at? (t.find_eq_ok_iff.1 h).2 }

/-! ## Reading -/

/-- The bytes of a file. -/
def readBytes (t : FileTree) (p : FilePath) : Except IoError ByteArray := do
  match ← t.find p with
  | (_, .file bytes) => .ok bytes
  | (_, .directory) => .error .isDirectory

/-- The characters that bytes stand for. -/
def decode (bytes : ByteArray) : Except IoError (List Char) :=
  match Text.characters? bytes.data.toList with
  | some cs => .ok cs
  | none => .error .notText

/-- The characters of a file. -/
def readCharacters (t : FileTree) (p : FilePath) : Except IoError (List Char) := do
  decode (← t.readBytes p)

/-- The text of a file. -/
def readText (t : FileTree) (p : FilePath) : Except IoError String :=
  (t.readCharacters p).map String.ofList

/-- **A file that holds the bytes of a text is read as that text.** -/
theorem readCharacters_of_find (t : FileTree) {p : FilePath} {place : Place} {s : String}
    (h : t.find p = .ok (place, .file s.toUTF8)) : t.readCharacters p = .ok s.toList := by
  rw [readCharacters, readBytes, h]
  change decode s.toUTF8 = _
  rw [decode, Text.characters?_toUTF8]

/-! ## Changing -/

/-- The directory that is to hold what is put at a place. -/
def checkParent (t : FileTree) (place : Place) :
    Except IoError (PLift (t.at? place.dropLast = some .directory)) :=
  if h : t.at? place.dropLast = some .directory then .ok ⟨h⟩
  else if t.at? place.dropLast = none then .error .notFound
  else .error .notDirectory

/-- **Writes a file**, over one that stands there already. -/
def writeFile (t : FileTree) (p : FilePath) (bytes : ByteArray) : Except IoError FileTree :=
  match hplace : t.place p with
  | .error e => .error e
  | .ok place => do
    let ⟨hparent⟩ ← t.checkParent place
    match h : t.at? place with
    | some .directory => .error .isDirectory
    | some (.file _) | none =>
      if hne : place = [] then .error .isDirectory
      else
        .ok (t.write place (.file bytes) hne (t.isEntryName_of_place hplace) hparent (by simp [h]))

/-- Makes a single directory where nothing stands.  Slashes behind its name change nothing. -/
def makeDirectory (t : FileTree) (p : FilePath) : Except IoError FileTree :=
  match hplace : t.place p.withoutEndSlashes with
  | .error e => .error e
  | .ok place => do
    let ⟨hparent⟩ ← t.checkParent place
    match h : t.at? place with
    | some _ => .error .alreadyThere
    | none =>
      if hne : place = [] then .error .alreadyThere
      else .ok (t.write place .directory hne (t.isEntryName_of_place hplace) hparent (by simp [h]))

/-- Makes a directory; one that stands there already will do. -/
def ensureDirectory (t : FileTree) (p : FilePath) : Except IoError FileTree :=
  match t.makeDirectory p with
  | .ok u => .ok u
  | .error e => if t.isDirectory p then .ok t else .error e

/-- Makes the directories at the paths of a list, the outermost of which comes last: as many as are
missing, from the outermost inwards. -/
def makeChain (t : FileTree) : List FilePath → Except IoError FileTree
  | [] => .ok t
  | p :: above =>
    match t.makeDirectory p with
    | .ok u => .ok u
    | .error .notFound => do (← t.makeChain above).ensureDirectory p
    | .error e => if t.isDirectory p then .ok t else .error e

/-- The tree that is left where such directories cannot all be made: those made before the failure stay. -/
def leftByChain (t : FileTree) : List FilePath → FileTree
  | [] => t
  | p :: above =>
    match t.makeDirectory p with
    | .error .notFound => (t.makeChain above).toOption.getD (t.leftByChain above)
    | _ => t

/-- **Makes a directory and all that is to contain it.** -/
def makeDirectories (t : FileTree) (p : FilePath) : Except IoError FileTree :=
  if p.text.isEmpty then .ok t
  else t.makeChain (p :: p.above)

/-- **The tree that is left where a directory cannot be made** with all that is to contain it. -/
def leftByDirectories (t : FileTree) (p : FilePath) : FileTree := t.leftByChain (p :: p.above)

/-- **Removes a file, or a directory with all that is in it.** -/
def remove (t : FileTree) (p : FilePath) : Except IoError FileTree := do
  let (place, _) ← t.find p
  if place = [] then .error .busy else .ok (t.removeBelow place)

/-- The paths inside a directory, in the order of their names.  A file has nothing inside. -/
def list (t : FileTree) (p : FilePath) : Except IoError (List FilePath) := do
  match ← t.find p with
  | (place, .directory) => .ok ((t.namesIn place).map p.child)
  | (_, .file _) => .ok []

end FileTree

end ModelPool
