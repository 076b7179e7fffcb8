import ModelPool.Files.Access

/-!
# Files/Texts — trees given by the texts of their files

A tree is written down as the places of its files with their texts; the directories around them are
made on the way.
-/

namespace ModelPool

namespace FileTree

/-- The tree with one more file, and with the directories that contain it.  What cannot be written is
left out. -/
def withText (t : FileTree) (place : Place) (text : String) : FileTree :=
  match t.makeDirectories (.ofPlace place.dropLast) with
  | .error _ => t
  | .ok u =>
    match u.writeFile (.ofPlace place) text.toUTF8 with
    | .error _ => u
    | .ok v => v

/-- **The tree of some files**, each with its place and its text. -/
def ofTexts (files : List (Place × String)) : FileTree :=
  files.foldl (fun t (place, text) => t.withText place text) .empty

end FileTree

end ModelPool
