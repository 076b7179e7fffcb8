import ModelPool.Json.Value

/-!
# Json/Layout — values written out over several lines

Each element of an array and each member of an object has a line of its own, two blanks further in
than the bracket; brackets with nothing between them stay on one line.
-/

namespace ModelPool.Json

/-- A line's end and the indentation of the next. -/
def newLine (depth : Nat) : List Char := '\n' :: List.replicate (2 * depth) ' '

/-- A string between its quotes. -/
def quotedString (written : List Char) : List Char := '"' :: (written ++ ['"'])

mutual

/-- A value whose last bracket stands at a depth. -/
def layoutAt (depth : Nat) : Json → List Char
  | null => "null".toList
  | boolean b => (if b then "true" else "false").toList
  | number digits => digits
  | string written => quotedString written
  | array [] => ['[', ']']
  | array (j :: js) =>
    '[' :: (newLine (depth + 1) ++ layoutAt (depth + 1) j ++ elementLines (depth + 1) js
      ++ newLine depth ++ [']'])
  | object [] => ['\x7b', '\x7d']
  | object ((name, j) :: members) =>
    '\x7b' :: (newLine (depth + 1) ++ quotedString name ++ [':', ' '] ++ layoutAt (depth + 1) j
      ++ memberLines (depth + 1) members ++ newLine depth ++ ['\x7d'])

/-- The elements behind the first one. -/
def elementLines (depth : Nat) : List Json → List Char
  | [] => []
  | j :: js => ',' :: (newLine depth ++ layoutAt depth j ++ elementLines depth js)

/-- The members behind the first one. -/
def memberLines (depth : Nat) : List (List Char × Json) → List Char
  | [] => []
  | (name, j) :: members =>
    ',' :: (newLine depth ++ quotedString name ++ [':', ' '] ++ layoutAt depth j
      ++ memberLines depth members)

end

/-- **The bytes of a value written out.** -/
def layout (json : Json) : ByteArray := toBytes (layoutAt 0 json)

end ModelPool.Json
