import ModelPool.Command.Execution
import ModelPool.Files.Changes

/-!
# Main — the command on the disk

The disk is read into a tree as far as a run can ask for it, the command is run on the tree, and the
changes of the tree are made on the disk.
-/

namespace ModelPool.Disk

/-- The names on the way to an absolute path. -/
def placeOf (text : String) : Place := (FilePath.mk text).parts.filter (!·.isEmpty)

/-- The tree with a directory and those that contain it. -/
def withDirectory (t : FileTree) (place : Place) : FileTree :=
  match t.makeDirectories (.ofPlace place) with
  | .ok u => u
  | .error _ => t

/-- The tree with a file, in a directory that is there. -/
def withFile (t : FileTree) (place : Place) (bytes : ByteArray) : FileTree :=
  match (withDirectory t place.dropLast).writeFile (.ofPlace place) bytes with
  | .ok u => u
  | .error _ => t

/-- The file at a place with its bytes, if it is one. -/
def readFile (t : FileTree) (place : Place) : IO FileTree := do
  let path := (← IO.currentDir) / (FilePath.ofPlace place).text
  if (← path.pathExists) && !(← path.isDir) then
    return withFile t place (← IO.FS.readBinFile path)
  return t

/-- What stands at a path: the directories above it, with their settings, and a file's bytes. -/
def readAbove (t : FileTree) (path : FilePath) : IO FileTree := do
  let path := (← IO.currentDir) / path.text
  unless ← path.pathExists do return t
  let place := placeOf (← IO.FS.realPath path).toString
  let mut t := t
  if ← path.isDir then t := withDirectory t place else t ← readFile t place
  for above in FrameworkRoot.placesAbove place do
    t ← readFile t (above ++ [Settings.fileName])
  return t

/-- Everything below a directory.  Of files that are no sources only the names count. -/
partial def readBelow (t : FileTree) (place : Place) : IO FileTree := do
  let path := (← IO.currentDir) / (FilePath.ofPlace place).text
  unless (← path.pathExists) && (← path.isDir) do return t
  let mut t := withDirectory t place
  for entry in ← path.readDir do
    let inner := place ++ [entry.fileName]
    if ← entry.path.isDir then t ← readBelow t inner
    else if isSourcePath ⟨entry.fileName⟩ || entry.fileName == Settings.fileName then
      t ← readFile t inner
    else t := withFile t inner .empty
  return t

/-- What stands at and below a path. -/
def readAround (t : FileTree) (path : FilePath) : IO FileTree := do
  let t ← readAbove t path
  match t.find path with
  | .ok (place, .directory) => readBelow t place
  | _ => return t

/-- **The disk as far as a run can ask for it.** -/
def read (arguments : List String) (variableValue : Option String) : IO FileTree := do
  let here : FilePath := ⟨(← IO.currentDir).toString⟩
  let t ← readAbove .empty here
  let t := match t.enter here with
    | .ok u => u
    | .error _ => t
  match Arguments.parse arguments with
  | .error _ => return t
  | .ok a =>
    let value := variableValue.map FilePath.mk
    let reports := a.report.toList.flatMap fun p => p :: p.above
    let t ← (a.project :: (a.testModule.toList ++ a.root.toList ++ value.toList ++ a.settings.toList
      ++ reports)).foldlM readAbove t
    match a.runConfig t value with
    | .error _ => return t
    | .ok c =>
      let roots := c.sourceRoots.map c.frameworkRoot.join
      (c.frameworkRoot :: c.targetDir t :: c.projectDir :: roots).foldlM readAround t

/-- Makes a change on the disk. -/
def apply : Change → IO Unit
  | .remove place => do
    let path := (← IO.currentDir) / (FilePath.ofPlace place).text
    if ← path.isDir then IO.FS.removeDirAll path else IO.FS.removeFile path
  | .write place .directory => do
    IO.FS.createDir ((← IO.currentDir) / (FilePath.ofPlace place).text)
  | .write place (.file bytes) => do
    IO.FS.writeBinFile ((← IO.currentDir) / (FilePath.ofPlace place).text) bytes

end ModelPool.Disk

open ModelPool in
/-- The command. -/
def main (arguments : List String) : IO UInt32 := do
  let value ← IO.getEnv FrameworkRoot.variableName
  let t ← Disk.read arguments value
  let x := command t arguments value
  (t.changes x.tree).forM Disk.apply
  (← IO.getStdout).putStr x.output
  (← IO.getStderr).putStr x.errors
  return x.code.toUInt32
