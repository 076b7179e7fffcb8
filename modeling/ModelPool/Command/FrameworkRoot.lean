import ModelPool.Command.Settings

/-!
# Command/FrameworkRoot — finding the framework root

The root may be given as an option or by a variable of the environment.  Otherwise it is the nearest
directory at or above a start that holds a file of settings.
-/

namespace ModelPool

namespace FrameworkRoot

/-- The option that gives the root. -/
def optionName : String := "--root"

/-- The variable that gives the root. -/
def variableName : String := "POOLGEN_ROOT"

/-- **A place and all that contain it**, from the inside outwards. -/
def placesAbove (place : Place) : List Place :=
  (List.range (place.length + 1)).map fun n => place.take (place.length - n)

/-- A root that is given has to be a directory. -/
def checkGiven (t : FileTree) (source : String) (p : FilePath) : Except Failure FilePath :=
  match t.find p with
  | .ok (place, .directory) => .ok (.ofPlace place)
  | _ =>
    .error (.configuration
      ("framework root from " ++ source ++ " is not a directory: " ++ p.text)
      (some "Point it at the directory that contains the pool and the modules."))

/-- A directory that holds a file of settings. -/
def isRoot (t : FileTree) (place : Place) : Bool :=
  t.isFile ((FilePath.ofPlace place).child Settings.fileName)

/-- The nearest root at or above a start. -/
def nearest (t : FileTree) (start : FilePath) : Except Failure FilePath :=
  match t.find start with
  | .error _ => .error (.access "Failed to resolve the starting directory" (some start))
  | .ok (place, _) =>
    match (placesAbove place).find? (isRoot t) with
    | some root => .ok (.ofPlace root)
    | none =>
      .error (.configuration
        ("no " ++ Settings.fileName ++ " found in " ++ (FilePath.ofPlace place).text
          ++ " or any parent directory")
        (some ("Create " ++ Settings.fileName ++ " at the framework root, set " ++ variableName
          ++ " or pass " ++ optionName ++ ".")))

/-- **Finds the framework root.**  A variable without text counts as missing. -/
def detect (t : FileTree) (option variableValue : Option FilePath) (start : FilePath) :
    Except Failure FilePath :=
  match option with
  | some p => checkGiven t optionName p
  | none =>
    match variableValue.filter fun p => !p.text.isEmpty with
    | some p => checkGiven t variableName p
    | none => nearest t start

end FrameworkRoot

end ModelPool
