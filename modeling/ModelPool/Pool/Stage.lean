import ModelPool.Pool.Directory
import ModelPool.Pool.Emit

/-!
# Pool/Stage — clearing the pool

Whatever stands at the pool's path is removed, and a directory is made there that holds nothing but a
placeholder: a source that declares the name of the pool's package, so that the pool can be imported
before it is filled.

* `stage_of_clear_error` — where the old pool cannot be removed, the tree stays as it is.
-/

namespace ModelPool

/-- **Why the pool cannot be cleared.** -/
inductive StageError where
  | remove (path : FilePath) (cause : IoError)
  | create (path : FilePath) (cause : IoError)
  | write (path : FilePath) (cause : IoError)
deriving DecidableEq

/-- The text of an error. -/
def StageError.message : StageError → String
  | remove path cause => "failed to clear " ++ path.text ++ ": " ++ cause.message
  | create path cause => "failed to create " ++ path.text ++ ": " ++ cause.message
  | write path cause => "failed to write " ++ path.text ++ ": " ++ cause.message

/-- **The source of the placeholder** of a pool with a name. -/
def placeholderSource (name : String) : String := preamble name

namespace FileTree

/-- The tree without what stands at a path, if anything does. -/
def cleared (t : FileTree) (p : FilePath) : Except IoError FileTree :=
  match t.find p with
  | .ok _ => t.remove p
  | .error .notFound => .ok t
  | .error e => .error e

/-- **Clears the pool at a path**; the result is the path of the placeholder. -/
def stage (t : FileTree) (p : FilePath) : FileTree × Except StageError FilePath :=
  match t.cleared p with
  | .error e => (t, .error (.remove p e))
  | .ok bare =>
    match bare.makeDirectories p with
    | .error e => (bare.leftByDirectories p, .error (.create p e))
    | .ok made =>
      let placeholder := p.child placeholderFile
      match made.writeFile placeholder (placeholderSource (poolName p)).toUTF8 with
      | .error e => (made, .error (.write placeholder e))
      | .ok staged => (staged, .ok placeholder)

/-- **Where the old pool cannot be removed, the tree stays as it is.** -/
theorem stage_of_clear_error {t : FileTree} {p : FilePath} {e : IoError}
    (h : t.cleared p = .error e) : t.stage p = (t, .error (.remove p e)) := by
  simp [stage, h]

end FileTree

end ModelPool
