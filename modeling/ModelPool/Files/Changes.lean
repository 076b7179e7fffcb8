import ModelPool.Files.Tree

/-!
# Files/Changes — what tells one tree from another

A tree is brought to the state of another one by removing what is no longer there, outermost places
first, and then writing what is new or different, each place after the directory that contains it.
-/

namespace ModelPool

/-- **A change at a place.** -/
inductive Change where
  | remove (place : Place)
  | write (place : Place) (entry : Entry)
deriving DecidableEq

namespace FileTree

/-- A place that has to be emptied before anything is written: what stands there is gone, or a
directory and a file have taken each other's place. -/
def isGone (old new : FileTree) (place : Place) : Bool :=
  match old.at? place, new.at? place with
  | some .directory, some .directory | some (.file _), some (.file _) => false
  | none, _ => false
  | _, _ => true

/-- **The changes from one tree to another.** -/
def changes (old new : FileTree) : List Change :=
  let gone := old.entries.keys.filter fun place =>
    isGone old new place && !isGone old new place.dropLast
  let fresh := new.entries.toList.filter fun (place, e) => decide (old.at? place ≠ some e)
  gone.map Change.remove ++ fresh.map fun (place, e) => Change.write place e

end FileTree

end ModelPool
