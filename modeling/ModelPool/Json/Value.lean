import ModelPool.Text.Quoted

/-!
# Json/Value — values of JSON, and the text of strings

Numbers and strings are kept as they are written, for what they stand for is only asked of some: a
string may be escaped so that it stands for no text at all.

Written values are lists of characters that stand for bytes, each for the byte with its number.
-/

namespace ModelPool

/-- **A value of JSON.** -/
inductive Json where
  | null
  | boolean (b : Bool)
  | number (digits : List Char)
  | string (written : List Char)
  | array (elements : List Json)
  | object (members : List (List Char × Json))

namespace Json

open Text

/-! ## Bytes as characters -/

/-- The character for a byte. -/
def byteCharacter (b : UInt8) : Char := Char.ofNat b.toNat

/-- The characters for bytes. -/
def ofBytes (bytes : ByteArray) : List Char := bytes.data.toList.map byteCharacter

/-- The bytes that characters stand for. -/
def toBytes (cs : List Char) : ByteArray := ⟨(cs.map fun c => c.toNat.toUInt8).toArray⟩

/-! ## Escapes -/

/-- The letters of the short escapes, with what they stand for. -/
def shortEscapes : List (Char × Char) :=
  [('"', '"'), ('\\', '\\'), ('/', '/'), ('b', '\x08'), ('f', '\x0c'), ('n', '\n'), ('r', '\r'),
    ('t', '\t')]

/-- The letter that a character is escaped by: a slash needs none. -/
def letterFor? (c : Char) : Option Char :=
  if c = '/' then none else (shortEscapes.find? (·.2 = c)).map Prod.fst

/-- A number of two hexadecimal digits. -/
def twoDigits (n : Nat) : List Char := if n < 16 then '0' :: hexadecimal n else hexadecimal n

/-- One escaped character.  Only quotes, backslashes and controls change. -/
def escapedCharacter (c : Char) : List Char :=
  match letterFor? c with
  | some letter => ['\\', letter]
  | none => if c < ' ' then ['\\', 'u', '0', '0'] ++ twoDigits c.toNat else [c]

/-- An escaped text. -/
def escaped (cs : List Char) : List Char := cs.flatMap escapedCharacter

/-- The value of a hexadecimal digit. -/
def digitValue? (c : Char) : Option Nat :=
  if '0' ≤ c ∧ c ≤ '9' then some (c.toNat - 48)
  else if 'a' ≤ c ∧ c ≤ 'f' then some (c.toNat - 87)
  else if 'A' ≤ c ∧ c ≤ 'F' then some (c.toNat - 55)
  else none

/-- The value of four hexadecimal digits. -/
def unit? (a b c d : Char) : Option Nat := do
  return (← digitValue? a) * 4096 + (← digitValue? b) * 256 + (← digitValue? c) * 16
    + (← digitValue? d)

/-- The characters for the bytes of a code point. -/
def bytesOf (n : Nat) : List Char := ofBytes (String.singleton (Char.ofNat n)).toUTF8

/-- **The text that an escaped one stands for.**  A unit of the first half of a pair needs one of the
second half behind it, and one of the second half cannot stand alone. -/
def unescaped? : List Char → Option (List Char)
  | [] => some []
  | '\\' :: 'u' :: a :: b :: c :: d :: r =>
    match unit? a b c d with
    | none => none
    | some first =>
      if first < 0xD800 ∨ 0xE000 ≤ first then (unescaped? r).map (bytesOf first ++ ·)
      else if 0xDC00 ≤ first then none
      else
        match r with
        | '\\' :: 'u' :: e :: f :: g :: h :: r =>
          match unit? e f g h with
          | none => none
          | some second =>
            if 0xDC00 ≤ second ∧ second < 0xE000 then
              (unescaped? r).map
                (bytesOf (0x10000 + (first - 0xD800) * 0x400 + (second - 0xDC00)) ++ ·)
            else none
        | _ => none
  | '\\' :: letter :: r =>
    match shortEscapes.lookup letter with
    | some c => (unescaped? r).map (c :: ·)
    | none => none
  | c :: r => (unescaped? r).map (c :: ·)

/-! ## Strings and numbers -/

/-- The string that stands for a text. -/
def ofText (s : String) : Json := string (escaped (ofBytes s.toUTF8))

/-- The text that a string stands for. -/
def text? : Json → Option String
  | string written => do String.fromUTF8? (toBytes (← unescaped? written))
  | _ => none

/-- The number of a natural number. -/
def ofNat (n : Nat) : Json := number (Nat.toDigits 10 n)

/-- **The natural number that a number is**, where it is written without sign, point and exponent,
and below a bound. -/
def natural? (bound : Nat) : Json → Option Nat
  | number digits =>
    if digits.all Char.isDigit then
      let n := digits.foldl (fun n c => n * 10 + (c.toNat - 48)) 0
      if n < bound then some n else none
    else none
  | _ => none

/-- The elements of an array. -/
def elements? : Json → Option (List Json)
  | array elements => some elements
  | _ => none

end Json

end ModelPool
