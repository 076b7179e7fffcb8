/-!
# Text/Utf8 — characters read from their bytes

Bytes are read one by one: a byte is a character of its own, or it begins one of up to four bytes, or it
goes on with the one that has begun.  A character has to be written with as few bytes as can be.

* `characters?_encode` — the bytes of characters are read as these characters.
* `characters?_toUTF8` — the bytes of a text are read as its characters.
* `toList_eq_characters` — so a text can be listed by way of its bytes.
-/

namespace ModelPool.Text

/-- **A character that has begun**: how many bytes are still to come, what the ones before them stand
for, and the least code that takes so many bytes. -/
structure Begun where
  missing : Nat
  code : Nat
  least : Nat

/-- What a byte begins that is no character of its own. -/
def begun? (byte : Nat) : Option Begun :=
  if byte < 0xC0 then none
  else if byte < 0xE0 then some ⟨1, byte - 0xC0, 0x80⟩
  else if byte < 0xF0 then some ⟨2, byte - 0xE0, 0x800⟩
  else if byte < 0xF8 then some ⟨3, byte - 0xF0, 0x10000⟩
  else none

/-- The character with a code, if the code takes so many bytes. -/
def characterFrom? (least code : Nat) : Option Char :=
  if least ≤ code ∧ code.isValidChar then some (Char.ofNat code) else none

/-- **The characters that bytes stand for**, where a character may have begun before them. -/
def charactersFrom? : Option Begun → List UInt8 → Option (List Char)
  | none, [] => some []
  | some _, [] => none
  | none, b :: r =>
    if b.toNat < 0x80 then (Char.ofNat b.toNat :: ·) <$> charactersFrom? none r
    else
      match begun? b.toNat with
      | none => none
      | some begun => charactersFrom? (some begun) r
  | some ⟨missing, code, least⟩, b :: r =>
    if b.toNat / 64 = 2 then
      let code := code * 64 + b.toNat % 64
      if missing ≤ 1 then
        match characterFrom? least code with
        | none => none
        | some c => (c :: ·) <$> charactersFrom? none r
      else charactersFrom? (some ⟨missing - 1, code, least⟩) r
    else none

/-- **The characters that bytes stand for.** -/
def characters? (bytes : List UInt8) : Option (List Char) := charactersFrom? none bytes

/-! ## Reading what has been written -/

theorem characterFrom?_toNat {c : Char} {least : Nat} (h : least ≤ c.toNat) :
    characterFrom? least c.toNat = some c := by
  have hvalid : c.toNat.isValidChar := c.valid
  rw [characterFrom?, if_pos ⟨h, hvalid⟩, Char.ofNat_toNat]

theorem toNat_ofNat_of_lt {n : Nat} (h : n < 256) : (UInt8.ofNat n).toNat = n := by
  rw [UInt8.toNat_ofNat']
  exact Nat.mod_eq_of_lt h

/-- A byte goes on with a character. -/
theorem charactersFrom?_continue {missing code least n : Nat} (hn : n < 64) (hm : 1 < missing)
    (r : List UInt8) :
    charactersFrom? (some ⟨missing, code, least⟩) (UInt8.ofNat (n + 0x80) :: r) =
      charactersFrom? (some ⟨missing - 1, code * 64 + n, least⟩) r := by
  have hbyte : (UInt8.ofNat (n + 0x80)).toNat = n + 0x80 := toNat_ofNat_of_lt (by omega)
  rw [charactersFrom?]
  dsimp only
  rw [hbyte, if_pos (by omega), if_neg (by omega)]
  congr 3
  omega

/-- The last byte of a character ends it. -/
theorem charactersFrom?_last {code least n : Nat} {c : Char} (hn : n < 64)
    (hcode : code * 64 + n = c.toNat) (hleast : least ≤ c.toNat) (r : List UInt8) :
    charactersFrom? (some ⟨1, code, least⟩) (UInt8.ofNat (n + 0x80) :: r) =
      (c :: ·) <$> charactersFrom? none r := by
  have hbyte : (UInt8.ofNat (n + 0x80)).toNat = n + 0x80 := toNat_ofNat_of_lt (by omega)
  have hwhole : code * 64 + (n + 0x80) % 64 = c.toNat := by omega
  rw [charactersFrom?]
  dsimp only
  rw [hbyte, if_pos (by omega), if_pos (by omega), hwhole, characterFrom?_toNat hleast]

/-- The first byte of several begins a character. -/
theorem charactersFrom?_begin {n : Nat} {begun : Begun} (hn : 0x80 ≤ n) (hlt : n < 256)
    (hbegun : begun? n = some begun) (r : List UInt8) :
    charactersFrom? none (UInt8.ofNat n :: r) = charactersFrom? (some begun) r := by
  rw [charactersFrom?, toNat_ofNat_of_lt hlt, if_neg (by omega), hbegun]

/-- **The bytes of a character are read as the character.** -/
theorem charactersFrom?_encodeChar (c : Char) (r : List UInt8) :
    charactersFrom? none (String.utf8EncodeChar c ++ r) = (c :: ·) <$> charactersFrom? none r := by
  have hlt : c.toNat < 0x110000 := by
    have hvalid : c.toNat.isValidChar := c.valid
    rcases hvalid with h | ⟨-, h⟩ <;> omega
  unfold String.utf8EncodeChar
  change charactersFrom? none ((if c.toNat ≤ 0x7f then _ else if c.toNat ≤ 0x7ff then _
    else if c.toNat ≤ 0xffff then _ else _) ++ r) = _
  split
  · have hbyte : (UInt8.ofNat c.toNat).toNat = c.toNat := toNat_ofNat_of_lt (by omega)
    change charactersFrom? none (UInt8.ofNat c.toNat :: r) = _
    rw [charactersFrom?, hbyte, if_pos (by omega), Char.ofNat_toNat]
  · split
    · have hbegun : begun? (c.toNat / 64 % 32 + 0xC0) = some ⟨1, c.toNat / 64 % 32, 0x80⟩ := by
        rw [begun?, if_neg (by omega), if_pos (by omega), Nat.add_sub_cancel]
      change charactersFrom? none (UInt8.ofNat (c.toNat / 64 % 32 + 192) ::
        UInt8.ofNat (c.toNat % 64 + 128) :: r) = _
      rw [charactersFrom?_begin (by omega) (by omega) hbegun]
      exact charactersFrom?_last (by omega) (by omega) (by omega) r
    · split
      · have hbegun : begun? (c.toNat / 4096 % 16 + 0xE0) =
            some ⟨2, c.toNat / 4096 % 16, 0x800⟩ := by
          rw [begun?, if_neg (by omega), if_neg (by omega), if_pos (by omega), Nat.add_sub_cancel]
        change charactersFrom? none (UInt8.ofNat (c.toNat / 4096 % 16 + 224) ::
          UInt8.ofNat (c.toNat / 64 % 64 + 128) :: UInt8.ofNat (c.toNat % 64 + 128) :: r) = _
        rw [charactersFrom?_begin (by omega) (by omega) hbegun,
          charactersFrom?_continue (by omega) (by omega)]
        exact charactersFrom?_last (by omega) (by omega) (by omega) r
      · have hbegun : begun? (c.toNat / 262144 % 8 + 0xF0) =
            some ⟨3, c.toNat / 262144 % 8, 0x10000⟩ := by
          rw [begun?, if_neg (by omega), if_neg (by omega), if_neg (by omega), if_pos (by omega),
            Nat.add_sub_cancel]
        change charactersFrom? none (UInt8.ofNat (c.toNat / 262144 % 8 + 240) ::
          UInt8.ofNat (c.toNat / 4096 % 64 + 128) :: UInt8.ofNat (c.toNat / 64 % 64 + 128) ::
            UInt8.ofNat (c.toNat % 64 + 128) :: r) = _
        rw [charactersFrom?_begin (by omega) (by omega) hbegun,
          charactersFrom?_continue (by omega) (by omega),
          charactersFrom?_continue (by omega) (by omega)]
        exact charactersFrom?_last (by omega) (by omega) (by omega) r

/-- **The bytes of characters are read as these characters.** -/
theorem characters?_encode (cs : List Char) :
    characters? (cs.flatMap String.utf8EncodeChar) = some cs := by
  induction cs with
  | nil => rfl
  | cons c r ih =>
    rw [characters?] at ih
    rw [characters?, List.flatMap_cons, charactersFrom?_encodeChar, ih]
    rfl

/-! ## Texts -/

theorem toList_toUTF8 (s : String) :
    s.toUTF8.data.toList = s.toList.flatMap String.utf8EncodeChar := by
  obtain ⟨cs, rfl⟩ : ∃ cs, s = String.ofList cs := ⟨s.toList, String.ofList_toList.symm⟩
  rw [String.toList_ofList]
  exact List.toList_data_toByteArray

/-- **The bytes of a text are read as its characters.** -/
theorem characters?_toUTF8 (s : String) : characters? s.toUTF8.data.toList = some s.toList := by
  rw [toList_toUTF8, characters?_encode]

/-- A text listed by way of its bytes: the kernel looks for each character of a literal from its front, and
reads the bytes in one pass. -/
theorem toList_eq_characters (s : String) : s.toList = (characters? s.toUTF8.data.toList).getD [] := by
  rw [characters?_toUTF8, Option.getD_some]

end ModelPool.Text
