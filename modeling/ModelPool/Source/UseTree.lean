import ModelPool.Source.TypeGrammar

/-!
# Source/UseTree — `use` trees and the entries they stand for

The argument of a `use` declaration is a tree: its leaves are names, renamed names and globs, and each
list in braces puts a path before its subtrees.  `UseTree.entries` reads the leaves from left to
right, each with the whole path above it.
-/

namespace ModelPool.Source

/-- **The argument of a `use` declaration.** -/
inductive UseTree where
  | name (path : List String)
  | renamed (path : List String) (asName : String)
  | glob (path : List String)
  | list (path : List String) (trees : List UseTree)

namespace UseTree

/-! ## Flattening -/

/-- The path of a leaf below another path; a lone `self` is the upper path itself. -/
def pathUnder (above path : List String) : List String :=
  if path = ["self"] ∧ above ≠ [] then above else above ++ path

mutual

/-- The entries of a tree below a path, from left to right. -/
def entriesBelow (line : Nat) (above : List String) : UseTree → List UseEntry
  | name path => [⟨pathUnder above path, none, false, line⟩]
  | renamed path asName => [⟨pathUnder above path, some asName, false, line⟩]
  | glob path => [⟨pathUnder above path, none, true, line⟩]
  | list path trees => entriesOfAll line (above ++ path) trees

/-- The entries of several trees below a path. -/
def entriesOfAll (line : Nat) (above : List String) : List UseTree → List UseEntry
  | [] => []
  | t :: r => entriesBelow line above t ++ entriesOfAll line above r

end

/-- **The entries of a `use` declaration** on a line. -/
def entries (line : Nat) (t : UseTree) : List UseEntry := entriesBelow line [] t

end UseTree

/-! ## Reading -/

namespace Reader

/-- The rest of a path, up to a `::` that a list or a glob follows. -/
def usePathRest : Nat → Reader Unit
  | 0 => failure
  | n + 1 => do
    let (ahead, second) ← textPair
    if ahead == "::" && second != openBrace && second != "*" then
      skip
      if second == "<" then
        let _ ← typeArguments n
      else
        let _ ← word
      usePathRest n

/-- A path before a list or a glob, or by itself. -/
def usePath (fuel : Nat) : Reader Unit := do
  if (← kind?) = some .word || (← kind?) = some .variable then
    skip
    usePathRest fuel
  else if ← optional "<" then
    let _ ← type fuel
    if ← optional "as" then
      let _ ← type fuel
    expect ">"
    usePathRest fuel
  else usePathRest fuel

/-- **A `use` tree.** -/
def useTree : Nat → Reader UseTree
  | 0 => failure
  | n + 1 => do
    let start ← get
    usePath n
    let path := splitPath (← since start)
    let (ahead, second) ← textPair
    let joins := ahead == "::"
    if joins && second == "*" || path.isEmpty && ahead == "*" then
      if joins then skip
      skip
      let whole ← since start
      return .glob (splitPath (String.ofList whole.toList.dropLast))
    else if joins && second == openBrace || path.isEmpty && ahead == openBrace then
      if joins then skip
      skip
      return .list path (← list closeBrace n (useTree n))
    else if path.isEmpty then failure
    else if ← optional "as" then return .renamed path (← word)
    else return .name path

end Reader

end ModelPool.Source
