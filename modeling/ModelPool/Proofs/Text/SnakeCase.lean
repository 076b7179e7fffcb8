import ModelPool.Text.SnakeCase

/-!
# Proofs/Text/SnakeCase — snake case inserts underscores and nothing else

    HTTPServer    http_server        _Order    _order
    already_snake already_snake      A1B       a1_b

The image of a text is the text lowered, with underscores inserted.  Whether a word begins is told by the
characters of the name, and whether an underscore is still missing by what has been written: that always ends
with the image of the character before, which ends in an underscore only if the character is one.

* `sign_not_mem_lowercase` — no letter has an underscore, a dot or a slash for its small form.
* `Underscored` — a text lowered, with single underscores inserted before upper-case letters.
* `snakeCase_inserts` — the image of a name.
-/

namespace ModelPool

open Text

/-! ## Signs -/

/-- **The signs that mean something in the name of a file**: a slash, a dot, and an underscore. -/
def fileSigns : List Char := ['/', '.', '_']

section Lowercase

variable {sign c : Char} (hsign : sign ∈ fileSigns)

include hsign

theorem toLower_ne_sign (h : c ≠ sign) : c.toLower ≠ sign := by
  have hcode : sign.toNat = 47 ∨ sign.toNat = 46 ∨ sign.toNat = 95 := by
    simp only [fileSigns, List.mem_cons, List.not_mem_nil, or_false] at hsign
    rcases hsign with rfl | rfl | rfl <;> decide
  unfold Char.toLower
  split
  · next hc =>
    intro heq
    have hval : (c.val + ('a'.val - 'A'.val)).toNat = sign.toNat :=
      congrArg (fun d : Char => d.val.toNat) heq
    have hle := UInt32.le_iff_toNat_le.1 hc.1
    have hge := UInt32.le_iff_toNat_le.1 hc.2
    simp at hval hle hge
    omega
  · exact h

omit hsign in
theorem toNat_ofNat_eq {n m : Nat} (h : (Char.ofNat n).toNat = m) (hm : m ≠ 0) : n = m := by
  by_cases hvalid : n.isValidChar
  · rw [Char.ofNat, dif_pos hvalid] at h
    exact h
  · rw [Char.ofNat, dif_neg hvalid] at h
    exact absurd h.symm hm

omit hsign in
/-- No capital is so far from a sign as from its small letter. -/
theorem not_holds_sign : fileSigns.all (fun sign => lowercaseOffsets.all
    fun row => !row.1.holds (sign.toNat - row.2).toNat) = true := by
  decide

/-- **No letter has a sign for its small form.** -/
theorem sign_not_mem_lowercase (h : c ≠ sign) : sign ∉ lowercase c := by
  unfold lowercase
  split
  · simpa using (toLower_ne_sign hsign h).symm
  · split
    · simp only [fileSigns, List.mem_cons, List.not_mem_nil, or_false] at hsign
      rcases hsign with rfl | rfl | rfl <;> decide
    · split
      · next row offset hrow =>
        intro hmem
        have hholds := List.find?_some hrow
        have hfree := List.all_eq_true.1 (List.all_eq_true.1 not_holds_sign _ hsign) _
          (List.mem_of_find?_eq_some hrow)
        have hpos : 0 < sign.toNat := by
          simp only [fileSigns, List.mem_cons, List.not_mem_nil, or_false] at hsign
          rcases hsign with rfl | rfl | rfl <;> decide
        have hcode : (c.toNat + offset).toNat = sign.toNat :=
          toNat_ofNat_eq (congrArg Char.toNat (List.mem_singleton.1 hmem)).symm (Nat.pos_iff_ne_zero.1 hpos)
        have hc : (sign.toNat - offset).toNat = c.toNat := by omega
        rw [hc] at hfree
        simp [hholds] at hfree
      · simpa using h.symm

/-- The image of another character has no sign. -/
theorem sign_not_mem_lowered (h : c ≠ sign) : sign ∉ lowered c := by
  unfold lowered
  split
  · exact sign_not_mem_lowercase hsign h
  · simpa using h.symm

/-- A sign is its own image. -/
theorem lowered_sign : lowered sign = [sign] := by
  simp only [fileSigns, List.mem_cons, List.not_mem_nil, or_false] at hsign
  rcases hsign with rfl | rfl | rfl <;> decide

/-- The image of a character begins with a sign only if the character is one. -/
theorem head?_lowered : (lowered c).head? = some sign ↔ c = sign := by
  refine ⟨fun h => ?_, fun h => by rw [h, lowered_sign hsign]; rfl⟩
  exact Decidable.by_contra fun hc => sign_not_mem_lowered hsign hc (List.mem_of_head? h)

end Lowercase

theorem lowered_ne_nil (c : Char) : lowered c ≠ [] := by
  unfold lowered
  split
  · exact lowercase_ne_nil c
  · exact List.cons_ne_nil c []

/-! ## Underscores -/

/-- **A text lowered, with underscores inserted**, behind what has been written.  An inserted underscore stands
right before the image of an upper-case letter; it is never first, and has no underscore on either side. -/
inductive Underscored : List Char → List Char → List Char → Prop
  | done (out : List Char) : Underscored out [] out
  | plain {out r whole : List Char} {c : Char} (h : Underscored (out ++ lowered c) r whole) :
      Underscored out (c :: r) whole
  | marked {out r whole : List Char} {c : Char} (hupper : isUppercase c = true) (hfirst : out ≠ [])
      (hleft : out.getLast? ≠ some '_') (hright : (lowered c).head? ≠ some '_')
      (h : Underscored (out ++ '_' :: lowered c) r whole) : Underscored out (c :: r) whole

namespace Underscored

variable {out cs whole : List Char}

/-- **Without underscores nothing is changed** but the case of letters. -/
theorem filter_eq (h : Underscored out cs whole) :
    whole.filter (· != '_') = (out ++ cs.flatMap lowered).filter (· != '_') := by
  induction h with
  | done out => rw [List.flatMap_nil, List.append_nil]
  | plain _ ih => rw [ih, List.flatMap_cons, List.append_assoc]
  | marked _ _ _ _ _ ih => simp [ih]

/-- **The first character** is never an inserted one. -/
theorem head?_eq (h : Underscored out cs whole) : whole.head? = (out ++ cs.flatMap lowered).head? := by
  induction h with
  | done out => rw [List.flatMap_nil, List.append_nil]
  | plain _ ih => rw [ih, List.flatMap_cons, List.append_assoc]
  | @marked out _ _ _ _ hfirst _ _ _ ih =>
    obtain ⟨d, ds, rfl⟩ := List.exists_cons_of_ne_nil hfirst
    rw [ih]
    rfl

end Underscored

/-! ## Snake case -/

/-- **What has been written ends with the image** of the character before. -/
def EndsInImage (out : List Char) (before : Option Char) : Prop :=
  ∀ p ∈ before, ∃ front, out = front ++ lowered p

theorem endsInImage_snakeStep (out : List Char) (before : Option Char) (c : Char) (after : Option Char) :
    EndsInImage (snakeStep out before c after) (some c) := by
  rintro _ ⟨⟩
  unfold snakeStep
  split
  · exact ⟨out ++ ['_'], by simp⟩
  · exact ⟨out, rfl⟩

/-- A word begins behind a letter or a digit only. -/
theorem exists_before_of_isBoundary {before after : Option Char} (h : isBoundary before after = true) :
    ∃ p, before = some p ∧ p ≠ '_' := by
  unfold isBoundary at h
  cases before with
  | none => exact absurd h (by simp)
  | some p =>
    refine ⟨p, rfl, ?_⟩
    rintro rfl
    have hnone : (isLowercase '_' || Char.isDigit '_' || isUppercase '_') = false := by decide
    simp_all

/-- **One character more**, with an underscore before it or without. -/
theorem underscored_step {out r whole : List Char} {before : Option Char} {c : Char}
    (hout : EndsInImage out before) (h : Underscored (snakeStep out before c r.head?) r whole) :
    Underscored out (c :: r) whole := by
  unfold snakeStep at h
  split at h
  · next hmark =>
    obtain ⟨⟨hupper, hboundary⟩, hguard⟩ := by simpa only [Bool.and_eq_true] using hmark
    obtain ⟨p, hp, hne⟩ := exists_before_of_isBoundary hboundary
    obtain ⟨front, hfront⟩ := hout p hp
    have hfirst : out ≠ [] := fun hnil => lowered_ne_nil p (List.append_eq_nil_iff.1 (hfront.symm.trans hnil)).2
    have hupperscore : c ≠ '_' := by
      rintro rfl
      exact absurd hupper (by decide)
    refine .marked hupper hfirst (by simpa using hguard) ?_ h
    exact fun hhead => hupperscore ((head?_lowered (by decide)).1 hhead)
  · exact .plain h

theorem underscored_snakeFrom {out : List Char} {before : Option Char} (hout : EndsInImage out before)
    (cs : List Char) : Underscored out cs (snakeFrom out before cs) := by
  induction cs generalizing out before with
  | nil => exact .done out
  | cons c r ih => exact underscored_step hout (ih (endsInImage_snakeStep out before c r.head?))

theorem underscored_snakeCase (name : String) : Underscored [] name.toList (snakeCase name).toList := by
  rw [snakeCase, String.toList_ofList]
  exact underscored_snakeFrom (fun _ h => absurd h (by simp)) _

/-- The image of a name begins with a sign exactly if the name does. -/
theorem head?_snakeCase {sign : Char} (hsign : sign ∈ fileSigns) (name : String) :
    (snakeCase name).toList.head? = some sign ↔ name.toList.head? = some sign := by
  rw [(underscored_snakeCase name).head?_eq, List.nil_append]
  cases name.toList with
  | nil => rfl
  | cons c r =>
    rw [List.flatMap_cons, List.head?_append, List.head?_cons, Option.some.injEq, ← head?_lowered hsign]
    cases hc : lowered c with
    | nil => exact absurd hc (lowered_ne_nil c)
    | cons d ds => rfl

/-- A sign other than the underscore stands in the image of a name only if it stands in the name. -/
theorem not_mem_snakeCase {sign : Char} (hsign : sign ∈ fileSigns) (hne : sign ≠ '_') {name : String}
    (h : sign ∉ name.toList) : sign ∉ (snakeCase name).toList := by
  intro hmem
  have hletters : sign ∈ (snakeCase name).toList.filter (· != '_') :=
    List.mem_filter.2 ⟨hmem, by simpa using hne⟩
  rw [(underscored_snakeCase name).filter_eq, List.nil_append] at hletters
  obtain ⟨c, hc, hlowered⟩ := List.mem_flatMap.1 (List.mem_filter.1 hletters).1
  refine sign_not_mem_lowered hsign ?_ hlowered
  rintro rfl
  exact h hc

theorem snakeCase_ne_nil {name : String} (h : name ≠ "") : (snakeCase name).toList ≠ [] := by
  intro hnil
  have hhead := (underscored_snakeCase name).head?_eq
  rw [hnil, List.nil_append] at hhead
  have himages : name.toList.flatMap lowered = [] := List.head?_eq_none_iff.1 hhead.symm
  cases hname : name.toList with
  | nil => exact h (String.toList_eq_nil_iff.1 hname)
  | cons c r =>
    rw [hname, List.flatMap_cons] at himages
    exact lowered_ne_nil c (List.append_eq_nil_iff.1 himages).1

/-- The letters of a name, lowered, without its underscores. -/
def plainLetters (name : String) : List Char := (name.toList.flatMap lowered).filter (· != '_')

/-- **Snake case only inserts underscores.**  The image of a name is the name lowered, each inserted underscore
standing right before the image of an upper-case letter, never first, and with no underscore on either side.  So
without any underscore it is the lowered name without any, it begins with an underscore exactly if the name does,
and two names with one image are the same but for case and underscores. -/
theorem snakeCase_inserts (name : String) :
    Underscored [] name.toList (snakeCase name).toList ∧
      (snakeCase name).toList.filter (· != '_') = plainLetters name ∧
      ((snakeCase name).toList.head? = some '_' ↔ name.toList.head? = some '_') ∧
      ∀ other, snakeCase other = snakeCase name → plainLetters other = plainLetters name := by
  have hplain : ∀ name, (snakeCase name).toList.filter (· != '_') = plainLetters name :=
    fun name => (underscored_snakeCase name).filter_eq
  refine ⟨underscored_snakeCase name, hplain name, head?_snakeCase (by decide) name, fun other h => ?_⟩
  rw [← hplain other, h, hplain name]

/-- An underscore that stands in the name already is not written again. -/
example : snakeCase "HTTPServer_OldV2Line" = "http_server_old_v2_line" := by decide +kernel

end ModelPool
