import ModelPool.Digest.Blake3
import ModelPool.Files.Access

/-!
# Digest/Tree — a digest of all files below a path

Each file has a line in the listing of a tree: its path from the top and the hash of its bytes.  The
digest is the hash of the listing, so it depends on what the files are called and hold, and on nothing
else.
-/

namespace ModelPool

/-- The path of a file as its line has it: with slashes only. -/
def listedPath (names : List String) : String :=
  String.ofList (("/".intercalate names).toList.map fun c => if c = '\\' then '/' else c)

/-- **The line of a file** — its path, a zero byte, the hash of its bytes, and a line feed. -/
def listingLine (path : String) (bytes : ByteArray) : List UInt8 :=
  path.toUTF8.data.toList ++ 0 :: (Blake3.hexHash bytes.data.toList).toUTF8.data.toList ++ [10]

/-- **The listing of files** below a place. -/
def listing (top : Place) (files : List (Place × ByteArray)) : List UInt8 :=
  files.flatMap fun (place, bytes) => listingLine (listedPath (place.drop top.length)) bytes

namespace FileTree

/-- **The digest of what stands at a path and below it.** -/
def digest (t : FileTree) (p : FilePath) : Except IoError String := do
  let (place, _) ← t.find p
  return Blake3.hexHash (listing place (t.filesBelow place))

end FileTree

end ModelPool
