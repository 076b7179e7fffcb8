import ModelPool.Proofs.Source.Lexemes

/-!
# Proofs/Source/Literals — a literal is closed by its own characters

Where a string, a block comment or a character literal ends is told by the characters it is made of: it
ends there whatever follows it, and its last character is no blank.

* `EndsLiteral` — the law for a function that finds such an end.
-/

namespace ModelPool.Source

open Text

/-- **The text begins with a literal of this length**, as the literal itself tells. -/
structure EndsLiteral (f : List Char → Option Nat) (cs : List Char) (m : Nat) : Prop where
  le : m ≤ cs.length
  take : ∀ rest, f (cs.take m ++ rest) = some m
  last : ∃ c, (cs.take m).getLast? = some c ∧ isBlank c = false

namespace EndsLiteral

variable {f g : List Char → Option Nat} {cs p r : List Char} {m : Nat}

theorem of_append (hg : ∀ rest, g (p ++ rest) = some p.length)
    (hlast : ∃ c, p.getLast? = some c ∧ isBlank c = false) (r : List Char) :
    EndsLiteral g (p ++ r) p.length where
  le := by simp
  take rest := by rw [List.take_left]; exact hg rest
  last := by rwa [List.take_left]

theorem exists_succ (h : EndsLiteral f cs m) : ∃ k c q, m = k + 1 ∧ cs = c :: q := by
  obtain ⟨d, hd, -⟩ := h.last
  cases cs with
  | nil => simp at hd
  | cons c q =>
    cases m with
    | zero => simp at hd
    | succ k => exact ⟨k, c, q, rfl, rfl⟩

/-- What stands before a literal may belong to it. -/
theorem behind (h : EndsLiteral f r m)
    (hg : ∀ rest, g (p ++ (r.take m ++ rest)) = some (m + p.length)) :
    EndsLiteral g (p ++ r) (m + p.length) := by
  have htake : (p ++ r).take (m + p.length) = p ++ r.take m := by
    rw [List.take_append, List.take_of_length_le (Nat.le_add_left _ _), Nat.add_sub_cancel]
  obtain ⟨c, hlast, hc⟩ := h.last
  refine ⟨?_, fun rest => ?_, c, ?_, hc⟩
  · rw [List.length_append, Nat.add_comm]
    exact Nat.add_le_add_left h.le _
  · rw [htake, List.append_assoc, hg]
  · rw [htake, List.getLast?_append, hlast]
    rfl

end EndsLiteral

variable {cs : List Char} {m : Nat}

/-! ## Strings and comments -/

theorem endsLiteral_string (h : stringLength cs = some m) : EndsLiteral stringLength cs m := by
  fun_induction stringLength cs generalizing m with
  | case1 => exact absurd h (by simp)
  | case2 r =>
    obtain rfl := Option.some.inj h
    exact .of_append (p := ['"']) (fun _ => rfl) ⟨'"', rfl, by decide⟩ r
  | case3 d r ih =>
    obtain ⟨k, hk, rfl⟩ := Option.map_eq_some_iff.1 h
    exact (ih hk).behind (p := ['\\', d]) fun rest => by simp [stringLength, (ih hk).take]
  | case4 c r hquote hescape ih =>
    obtain ⟨k, hk, rfl⟩ := Option.map_eq_some_iff.1 h
    obtain ⟨j, d, q, rfl, rfl⟩ := (ih hk).exists_succ
    refine (ih hk).behind (p := [c]) fun rest => ?_
    rw [List.singleton_append, stringLength, (ih hk).take rest]
    · rfl
    · exact hquote
    · exact fun e s hc _ => hescape d q hc rfl

theorem endsLiteral_blockComment {depth : Nat} (h : blockCommentLength depth cs = some m) :
    EndsLiteral (blockCommentLength depth) cs m := by
  fun_induction blockCommentLength depth cs generalizing m with
  | case1 => exact absurd h (by simp)
  | case2 r | case3 r =>
    obtain rfl := Option.some.inj h
    exact .of_append (p := ['*', '/']) (fun _ => rfl) ⟨'/', rfl, by decide⟩ r
  | case4 r d ih =>
    obtain ⟨k, hk, rfl⟩ := Option.map_eq_some_iff.1 h
    exact (ih hk).behind (p := ['*', '/']) fun rest => by simp [blockCommentLength, (ih hk).take]
  | case5 depth r ih =>
    obtain ⟨k, hk, rfl⟩ := Option.map_eq_some_iff.1 h
    exact (ih hk).behind (p := ['/', '*']) fun rest => by simp [blockCommentLength, (ih hk).take]
  | case6 depth c r hend hopen ih =>
    obtain ⟨k, hk, rfl⟩ := Option.map_eq_some_iff.1 h
    obtain ⟨j, d, q, rfl, rfl⟩ := (ih hk).exists_succ
    refine (ih hk).behind (p := [c]) fun rest => ?_
    rw [List.singleton_append, blockCommentLength, (ih hk).take rest]
    · rfl
    · exact fun s hc heq => hend q hc (by rw [(List.cons.inj heq).1])
    · exact fun s hc heq => hopen q hc (by rw [(List.cons.inj heq).1])

/-- A raw string goes on behind the hashes it begins with. -/
theorem runLength_lt_of_rawString {hashes : Nat} (h : rawStringLength hashes cs = some m) :
    runLength (· == '#') cs < m := by
  fun_induction rawStringLength hashes cs generalizing m with
  | case1 => exact absurd h (by simp)
  | case2 r hle =>
    obtain rfl := Option.some.inj h
    simp [runLength]
  | case3 r hle ih =>
    obtain ⟨k, -, rfl⟩ := Option.map_eq_some_iff.1 h
    simp [runLength]
  | case4 c r hquote ih =>
    obtain ⟨k, hk, rfl⟩ := Option.map_eq_some_iff.1 h
    have hlt := ih hk
    by_cases hc : c = '#' <;> simp_all [runLength]

/-- The hashes that a text begins with are told by its first characters. -/
theorem runLength_take_append {p : Char → Bool} {k : Nat} (h : runLength p cs < k) (hk : k ≤ cs.length)
    (rest : List Char) : runLength p (cs.take k ++ rest) = runLength p cs := by
  induction cs generalizing k with
  | nil => simp at hk; omega
  | cons c cs ih =>
    obtain ⟨k, rfl⟩ := Nat.exists_eq_add_one_of_ne_zero (Nat.ne_zero_of_lt h)
    by_cases hc : p c = true
    · simp_all [runLength]
    · simp [runLength, hc]

theorem exists_hashes {k : Nat} (h : k ≤ runLength (· == '#') cs) :
    ∃ r, cs = List.replicate k '#' ++ r := by
  induction k generalizing cs with
  | zero => exact ⟨cs, rfl⟩
  | succ k ih =>
    cases cs with
    | nil => simp [runLength] at h
    | cons c r =>
      by_cases hc : c = '#'
      · have hr : k ≤ runLength (· == '#') r := by simpa [runLength, hc] using h
        obtain ⟨s, rfl⟩ := ih hr
        exact ⟨s, by rw [hc]; rfl⟩
      · simp [runLength, hc] at h

theorem runLength_hashes {k : Nat} (cs : List Char) :
    runLength (· == '#') (List.replicate k '#' ++ cs) = k + runLength (· == '#') cs := by
  simp [runLength]

theorem endsLiteral_rawString {hashes : Nat} (h : rawStringLength hashes cs = some m) :
    EndsLiteral (rawStringLength hashes) cs m := by
  fun_induction rawStringLength hashes cs generalizing m with
  | case1 => exact absurd h (by simp)
  | case2 r hle =>
    obtain rfl := Option.some.inj h
    obtain ⟨s, rfl⟩ := exists_hashes hle
    have hends : EndsLiteral (rawStringLength hashes) (('"' :: List.replicate hashes '#') ++ s)
        ('"' :: List.replicate hashes '#').length := by
      refine .of_append (fun rest => ?_) ?_ s
      · rw [List.cons_append, rawStringLength, runLength_hashes, if_pos (Nat.le_add_right _ _)]
        simp
      · cases hashes with
        | zero => exact ⟨'"', rfl, by decide⟩
        | succ k => exact ⟨'#', by simp [List.getLast?_cons, List.replicate_succ'], by decide⟩
    simpa using hends
  | case3 r hle ih =>
    obtain ⟨k, hk, rfl⟩ := Option.map_eq_some_iff.1 h
    have hrun := runLength_take_append (runLength_lt_of_rawString hk) (ih hk).le
    refine (ih hk).behind (p := ['"']) fun rest => ?_
    rw [List.singleton_append, rawStringLength, hrun, if_neg hle, (ih hk).take rest]
    rfl
  | case4 c r hquote ih =>
    obtain ⟨k, hk, rfl⟩ := Option.map_eq_some_iff.1 h
    refine (ih hk).behind (p := [c]) fun rest => ?_
    rw [List.singleton_append, rawStringLength, (ih hk).take rest]
    · rfl
    · exact hquote

theorem rawStringStart_hashes (k : Nat) (r : List Char) :
    rawStringStart (List.replicate k '#' ++ '"' :: r) =
      some ((rawStringLength k r).map (· + (k + 1))) := by
  have hrun : runLength (· == '#') (List.replicate k '#' ++ '"' :: r) = k := runLength_hashes _
  have hdrop : (List.replicate k '#' ++ '"' :: r).drop k = '"' :: r := List.drop_left' (by simp)
  rw [rawStringStart, hrun, hdrop]
  rfl

theorem endsLiteral_rawStringStart (h : rawStringStart cs = some (some m)) :
    EndsLiteral (fun cs => (rawStringStart cs).join) cs m := by
  obtain ⟨r, k, rfl⟩ : ∃ r k, cs = List.replicate k '#' ++ '"' :: r := by
    obtain ⟨r, hr⟩ := exists_hashes (Nat.le_refl (runLength (· == '#') cs))
    have hdrop := congrArg (List.drop (runLength (· == '#') cs)) hr
    rw [List.drop_left' (by simp)] at hdrop
    unfold rawStringStart at h
    dsimp only at h
    split at h
    · next s hs => exact ⟨s, _, hr.trans (by rw [← hdrop, hs])⟩
    · exact absurd h (by simp)
  rw [rawStringStart_hashes] at h
  obtain ⟨j, hj, rfl⟩ := Option.map_eq_some_iff.1 (Option.some.inj h)
  have hends := (endsLiteral_rawString hj).behind (p := List.replicate k '#' ++ ['"'])
    (g := fun cs => (rawStringStart cs).join) fun rest => by
      simp [rawStringStart_hashes, (endsLiteral_rawString hj).take]
  simpa using hends

/-! ## Characters -/

theorem isHexDigit_ne {c : Char} (h : isHexDigit c = true) : c ≠ '{' := by
  rintro rfl
  exact absurd h (by decide)

/-- An escape of a code point in braces. -/
theorem escapeLength_braces {u : List Char} (hu : u.all isHexDigit = true) (hne : u ≠ [])
    (rest : List Char) :
    escapeLength ('u' :: '{' :: (u ++ '}' :: '\'' :: rest)) = some (u.length + 4) := by
  have hrun : runLength isHexDigit (u ++ '}' :: '\'' :: rest) = u.length :=
    runLength_append hu (by simp; decide)
  have hdrop : (u ++ '}' :: '\'' :: rest).drop u.length = '}' :: '\'' :: rest := List.drop_left
  rw [escapeLength, hrun, hdrop]
  simp [hne]

theorem endsLiteral_escape (h : escapeLength cs = some m) : EndsLiteral escapeLength cs m := by
  unfold escapeLength at h
  split at h
  case h_1 a b r =>
    split at h
    · next hhex =>
      obtain rfl := Option.some.inj h
      exact .of_append (p := ['x', a, b, '\'']) (fun _ => if_pos hhex) ⟨'\'', rfl, by decide⟩ r
    · exact absurd h (by simp)
  case h_2 r =>
    dsimp only at h
    split at h
    · next s hdrop =>
      split at h
      · exact absurd h (by simp)
      · next hne =>
        obtain rfl := Option.some.inj h
        have hr : r.takeWhile isHexDigit ++ '}' :: '\'' :: s = r := by
          rw [← hdrop, ← take_runLength, List.take_append_drop]
        have hends := @EndsLiteral.of_append escapeLength
          ('u' :: '{' :: (r.takeWhile isHexDigit ++ ['}', '\''])) (fun rest => by
            simpa using escapeLength_braces (u := r.takeWhile isHexDigit) List.all_takeWhile
              (fun hnil => hne (by rw [runLength, hnil]; rfl)) rest)
          ⟨'\'', by simp [List.getLast?_cons], by decide⟩ s
        simpa [hr, runLength] using hends
    · exact absurd h (by simp)
  case h_3 a b c d r hbrace =>
    split at h
    · next hhex =>
      obtain rfl := Option.some.inj h
      refine .of_append (p := ['u', a, b, c, d, '\'']) (fun _ => ?_) ⟨'\'', rfl, by decide⟩ r
      have ha : a ≠ '{' := isHexDigit_ne (by simp_all)
      simp_all [escapeLength]
    · exact absurd h (by simp)
  case h_6 c r _ _ hx hu =>
    obtain rfl := Option.some.inj h
    refine .of_append (p := [c, '\'']) (fun _ => ?_) ⟨'\'', rfl, by decide⟩ r
    simp_all [escapeLength]
  all_goals exact absurd h (by simp)

theorem endsLiteral_character (h : characterLength cs = some m) : EndsLiteral characterLength cs m := by
  unfold characterLength at h
  split at h
  · next r =>
    obtain rfl := Option.some.inj h
    exact .of_append (p := ['\'']) (fun _ => rfl) ⟨'\'', rfl, by decide⟩ r
  · next r =>
    obtain ⟨k, hk, rfl⟩ := Option.map_eq_some_iff.1 h
    have hr := endsLiteral_escape hk
    exact hr.behind (p := ['\\']) fun rest => by simp [characterLength, hr.take]
  · next c r hquote hescape =>
    obtain rfl := Option.some.inj h
    refine .of_append (p := [c, '\'']) (fun rest => ?_) ⟨'\'', rfl, by decide⟩ r
    simp_all [characterLength]
  · exact absurd h (by simp)

end ModelPool.Source
