/-!
# Text/Quoted — texts in double quotes

A quoted text is read back without doubt: quotes and backslashes in it are marked by a backslash, and
characters that cannot be seen are written by their code.
-/

namespace ModelPool.Text

/-- A number in hexadecimal digits. -/
def hexadecimal (n : Nat) : List Char := Nat.toDigits 16 n

/-- A character that is written by its code: a control, or a mark that combines with the one before
it. -/
def isUnseen (c : Char) : Bool :=
  let n := c.toNat
  n < 0x20 || (0x7F ≤ n && n < 0xA0) || n == 0xAD || (0x300 ≤ n && n < 0x370)
    || (0x200B ≤ n && n < 0x2010) || (0x2028 ≤ n && n < 0x202F) || n == 0xFEFF

/-- One character between quotes. -/
def quotedCharacter (c : Char) : List Char :=
  match c with
  | '"' => ['\\', '"']
  | '\\' => ['\\', '\\']
  | '\n' => ['\\', 'n']
  | '\r' => ['\\', 'r']
  | '\t' => ['\\', 't']
  | '\x00' => ['\\', '0']
  | c =>
    if isUnseen c then ['\\', 'u', '\x7b'] ++ hexadecimal c.toNat ++ ['\x7d']
    else [c]

/-- **A text in quotes.** -/
def quoted (s : String) : String :=
  String.ofList ('"' :: (s.toList.flatMap quotedCharacter ++ ['"']))

end ModelPool.Text
