import ModelPool.Proofs.Source.Alike

/-!
# Proofs/Source/Cutting — a lexeme is cut off the same way before texts that begin alike

* `lexemeView` — what a lexeme may be.
* `lexeme_alike` — a lexeme that is cut off before one text is cut off before another one that begins alike.
* `isBlank_last` — no lexeme but a comment ends with a blank.
-/

namespace ModelPool.Source

open Text

/-! ## What a lexeme is -/

/-- No literal begins with the letters of a word here. -/
structure IsPlainWord (c : Char) (r : List Char) : Prop where
  quote : c = 'b' → ∀ q, r = '\'' :: q → characterLength q = none
  text : c = 'b' ∨ c = 'c' → ∀ q, r ≠ '"' :: q
  rawText : c = 'b' ∨ c = 'c' → ∀ q, r = 'r' :: q → rawStringStart q = none
  raw : c = 'r' → rawStringStart r = none ∧ ∀ d q, r = '#' :: d :: q → isWordStart d = false

theorem IsPlainWord.wordLexeme_eq {c : Char} {r : List Char} (h : IsPlainWord c r) :
    wordLexeme c r = (.word, runLength isIdentifierTail r + 1) := by
  unfold wordLexeme
  split
  · next q => rw [h.quote rfl q rfl]
  · next q => exact absurd rfl (h.text (.inl rfl) q)
  · next q => exact absurd rfl (h.text (.inr rfl) q)
  · next q => simp [h.rawText (.inl rfl) q rfl]
  · next q => simp [h.rawText (.inr rfl) q rfl]
  · next d q => simp [(h.raw rfl).2 d q rfl, (h.raw rfl).1]
  · next q _ => simp [(h.raw rfl).1]
  · rfl

/-- **What a lexeme is**: a literal that is closed by its own characters, the line of a comment, or a run
that what follows it ends. -/
inductive LexemeView (c : Char) (r : List Char) : TokenKind × Nat → Prop
  | literal {f : List Char → Option Nat} {p q : List Char} {m : Nat} {kind : TokenKind}
      (hkind : kind = .text ∨ kind = .character ∨ kind = .comment ∧ c = '/') (hr : r = p ++ q)
      (hq : EndsLiteral f q m)
      (hcut : ∀ q, f q = some m → lexeme c (p ++ q) = (kind, m + p.length + 1)) :
      LexemeView c r (kind, m + p.length + 1)
  | line {q : List Char} {n : Nat} (hc : c = '/') (hr : r = '/' :: q) (hn : 2 ≤ n) :
      LexemeView c r (.comment, n)
  | lifetime {d : Char} {q : List Char} (hc : c = '\'') (hr : r = d :: q) (hd : isWordStart d = true)
      (hnone : characterLength r = none) : LexemeView c r (.lifetime, runLength isIdentifierTail q + 2)
  | dollar {d : Char} {q : List Char} (hc : c = '$') (hr : r = d :: q)
      (hd : d.isAlpha = true ∨ d = '_') : LexemeView c r (.variable, runLength isIdentifierTail q + 2)
  | rawWord {d : Char} {q : List Char} (hc : c = 'r') (hr : r = '#' :: d :: q)
      (hd : isWordStart d = true) : LexemeView c r (.word, runLength isIdentifierTail q + 3)
  | word (hc : isWordStart c = true) (hr : IsPlainWord c r) :
      LexemeView c r (.word, runLength isIdentifierTail r + 1)
  | number (hc : c.isDigit = true) : LexemeView c r (.number, numberLength c r)
  | sign {n : Nat} (hc : isWordStart c = false) (hr : lexeme c r = (.punctuation, n)) (hn : 0 < n)
      (hplain : ∀ d ∈ (c :: r).take n, isBlank d = false) : LexemeView c r (.punctuation, n)
  | none {n : Nat} {kind : TokenKind} (hkind : kind = .stray ∨ kind = .quote) : LexemeView c r (kind, n)

section View

variable {c : Char} {r q : List Char}

theorem isBlank_joined {p : List Char} (hp : p ∈ joinedPunctuation) :
    0 < p.length ∧ ∀ d ∈ p, isBlank d = false := by
  have hall : (joinedPunctuation.all fun p => !p.isEmpty && p.all (!isBlank ·)) = true := by decide
  have hboth := Bool.and_eq_true_iff.1 (List.all_eq_true.1 hall p hp)
  exact ⟨List.length_pos_iff.2 (by simpa using hboth.1), by simpa using hboth.2⟩

theorem isBlank_of_isPunctuation (hc : isPunctuation c = true) : isBlank c = false := by
  have hall : "+-*/%^!&|=<>@.,;:#?$(){}[]".toList.all (!isBlank ·) = true := by decide
  have hblank := List.all_eq_true.1 hall c (by simpa [isPunctuation] using hc)
  simpa using hblank

/-- A literal that ends in itself, or is never closed. -/
theorem view_closed {f : List Char → Option Nat} {kind : TokenKind} (p : List Char)
    (hkind : kind = .text ∨ kind = .character ∨ kind = .comment ∧ c = '/') (hr : r = p ++ q)
    (hf : ∀ m, f q = some m → EndsLiteral f q m)
    (hcut : ∀ q, lexeme c (p ++ q) = closed kind (p.length + 1) q (f q)) :
    LexemeView c r (closed kind (p.length + 1) q (f q)) := by
  cases hq : f q with
  | none => exact .none (.inl rfl)
  | some m =>
    have hlength : ∀ m, closed kind (p.length + 1) q (some m) = (kind, m + p.length + 1) := fun m => by
      rw [closed, Nat.add_comm, Nat.add_assoc]
    rw [hlength]
    refine .literal hkind hr (hf m hq) fun q' hq' => ?_
    rw [hcut, hq', closed, Nat.add_comm, Nat.add_assoc]

/-- A raw string that is closed, or never, or does not begin. -/
theorem view_raw {word : TokenKind × Nat} (p : List Char) (hr : r = p ++ q)
    (hcut : ∀ q n, rawStringStart q = some n → lexeme c (p ++ q) = closed .text (p.length + 1) q n)
    (hword : rawStringStart q = none → LexemeView c r word) :
    LexemeView c r (match rawStringStart q with
      | some n => closed .text (p.length + 1) q n
      | none => word) := by
  cases hq : rawStringStart q with
  | none => exact hword hq
  | some n =>
    cases n with
    | none => exact .none (.inl rfl)
    | some m =>
      have hlength : closed .text (p.length + 1) q (some m) = (.text, m + p.length + 1) := by
        rw [closed, Nat.add_comm, Nat.add_assoc]
      dsimp only
      rw [hlength]
      refine .literal (.inl rfl) hr (endsLiteral_rawStringStart hq) fun q' hq' => ?_
      rw [hcut q' _ (Option.join_eq_some_iff.1 hq'), closed, Nat.add_comm, Nat.add_assoc]

/-- Behind the sign of a raw identifier no raw string begins. -/
theorem isWordStart_of_rawStringStart {d : Char} {n : Option Nat}
    (h : rawStringStart ('#' :: d :: q) = some n) : isWordStart d = false := by
  rw [Bool.eq_false_iff]
  intro hd
  have hhash : (d == '#') = false := by
    rw [beq_eq_false_iff_ne]
    rintro rfl
    exact absurd hd (by decide)
  have hrun : runLength (· == '#') ('#' :: d :: q) = 1 := by simp [runLength, hhash]
  have hnone : rawStringStart ('#' :: d :: q) = none := by
    rw [rawStringStart_eq_none_iff, hrun]
    rintro s hs
    obtain rfl := (List.cons.inj hs).1
    exact absurd hd (by decide)
  exact absurd (h.symm.trans hnone) (by simp)

theorem wordLexeme_raw {n : Option Nat} (h : rawStringStart r = some n) :
    wordLexeme 'r' r = closed .text 1 r n := by
  unfold wordLexeme
  split
  case h_6 d q heq =>
    obtain ⟨-, rfl⟩ := heq
    simp [isWordStart_of_rawStringStart h, h]
  all_goals simp_all

theorem view_wordLexeme (hc : isWordStart c = true) : LexemeView c r (wordLexeme c r) := by
  have hmarked : ∀ {c q} {n : Option Nat}, c = 'b' ∨ c = 'c' → rawStringStart q = some n →
      lexeme c (['r'] ++ q) = closed .text 2 q n := by
    rintro _ q n (rfl | rfl) hq <;>
      (rw [lexeme_of_isWordStart (by decide)]; simp [wordLexeme, hq])
  have hraw : ∀ {q} {n : Option Nat}, rawStringStart q = some n →
      lexeme 'r' ([] ++ q) = closed .text 1 q n := fun hq => by
    rw [lexeme_of_isWordStart (by decide), List.nil_append, wordLexeme_raw hq]
  unfold wordLexeme
  split
  · next q =>
    dsimp only
    cases hq : characterLength q with
    | some m =>
      exact .literal (p := ['\'']) (.inr (.inl rfl)) rfl (endsLiteral_character hq) fun q' hq' => by
        rw [lexeme_of_isWordStart hc, List.singleton_append, wordLexeme, hq']
        rfl
    | none =>
      exact .word hc ⟨fun _ q' hq' => (List.cons.inj hq').2 ▸ hq, by simp, by simp, by simp⟩
  · next q => exact view_closed ['"'] (.inl rfl) rfl (fun m => endsLiteral_string) fun q => rfl
  · next q => exact view_closed ['"'] (.inl rfl) rfl (fun m => endsLiteral_string) fun q => rfl
  · next q =>
    refine view_raw ['r'] rfl (fun q n hq => hmarked (.inl rfl) hq) fun hq =>
      .word hc ⟨by simp, by simp, fun _ q' hq' => (List.cons.inj hq').2 ▸ hq, by simp⟩
  · next q =>
    refine view_raw ['r'] rfl (fun q n hq => hmarked (.inr rfl) hq) fun hq =>
      .word hc ⟨by simp, by simp, fun _ q' hq' => (List.cons.inj hq').2 ▸ hq, by simp⟩
  · next d q =>
    dsimp only
    split
    · next hd => exact .rawWord rfl rfl hd
    · next hd =>
      refine view_raw [] rfl (fun q n hq => hraw hq) fun hq => .word hc ⟨by simp, by simp, by simp, ?_⟩
      exact fun _ => ⟨hq, by simp_all⟩
  · next q hne =>
    refine view_raw [] rfl (fun q n hq => hraw hq) fun hq => .word hc ⟨by simp, by simp, by simp, ?_⟩
    exact fun _ => ⟨hq, fun d s hs => absurd hs (by simp_all)⟩
  · next hr hquote hbtext hctext hbraw hcraw hhash =>
    exact .word hc ⟨fun hb q hq => (hquote q hb hq).elim,
      fun hc q hq => hc.elim (hbtext q · hq) (hctext q · hq),
      fun hc q hq => (hc.elim (hbraw q · hq) (hcraw q · hq)).elim, fun hc => (hr hc).elim⟩

/-- **Every lexeme is one of these.** -/
theorem lexemeView (c : Char) (r : List Char) : LexemeView c r (lexeme c r) := by
  obtain ⟨l, hl⟩ : ∃ l, lexeme c r = l := ⟨_, rfl⟩
  have h := hl
  rw [hl]
  unfold lexeme at h
  split at h
  · next q =>
    dsimp only at h
    split at h <;> exact h ▸ .line rfl rfl (by omega)
  · next q => exact h ▸ view_closed ['*'] (.inr (.inr ⟨rfl, rfl⟩)) rfl (fun m => endsLiteral_blockComment) fun q => rfl
  · exact h ▸ view_closed [] (.inl rfl) rfl (fun m => endsLiteral_string) fun q => rfl
  · split at h
    · next n hn =>
      exact h ▸ .literal (p := []) (.inr (.inl rfl)) rfl (endsLiteral_character hn) fun q' hq' => by
        simp [lexeme, hq']
    · next d q hn =>
      split at h
      · next hd => exact h ▸ .lifetime rfl rfl hd hn
      · exact h ▸ .none (.inr rfl)
    · exact h ▸ .none (.inr rfl)
  · next d q =>
    split at h
    · next hd => exact h ▸ .dollar rfl rfl (by simpa using hd)
    · subst h
      exact .sign (by decide) hl Nat.one_pos (by simp; decide)
  · split at h
    · next hc => exact h ▸ view_wordLexeme hc
    · next hc =>
      have hc := Bool.eq_false_iff.2 hc
      split at h
      · next hdigit => exact h ▸ .number hdigit
      · split at h
        · next p hp =>
          subst h
          obtain ⟨hlength, hplain⟩ := isBlank_joined (List.mem_of_find?_eq_some hp)
          have htake := List.prefix_iff_eq_take.1 (List.isPrefixOf_iff_prefix.1
            (List.find?_some (p := fun p => List.isPrefixOf p (c :: r)) hp))
          exact .sign hc hl hlength (htake ▸ hplain)
        · split at h
          · next hsign =>
            subst h
            exact .sign hc hl Nat.one_pos (by simpa using isBlank_of_isPunctuation hsign)
          · exact h ▸ .none (.inl rfl)

end View

/-! ## Blanks -/

/-- A lexeme that the grammar has a use for. -/
def IsSound (kind : TokenKind) : Prop := kind ≠ .stray ∧ kind ≠ .quote

section Blanks

variable {c : Char} {w a : List Char} {kind : TokenKind}

/-- Nothing that is taken is blank. -/
def TakesNoBlank (f : List Char → Nat) : Prop := ∀ cs : List Char, ∀ d ∈ cs.take (f cs), isBlank d = false

theorem takesNoBlank_run {p : Char → Bool} (hp : ∀ c, p c = true → isBlank c = false) :
    TakesNoBlank (runLength p) := by
  intro cs d hd
  rw [take_runLength] at hd
  exact hp d (List.mem_takeWhile_imp hd)

theorem takesNoBlank_tails : TakesNoBlank (runLength isIdentifierTail) :=
  takesNoBlank_run fun _ => isBlank_of_isIdentifierTail

theorem TakesNoBlank.andThen {f g : List Char → Nat} (hf : TakesNoBlank f) (hg : TakesNoBlank g) :
    TakesNoBlank (lengthThen f g) := by
  intro cs d hd
  rw [lengthThen, List.take_add, List.mem_append] at hd
  exact hd.elim (hf cs d) (hg _ d)

theorem takesNoBlank_groups : TakesNoBlank (runLength isDigitOrGroup) :=
  takesNoBlank_run fun _ h => isBlank_of_isIdentifierTail (isIdentifierTail_of_isDigitOrGroup h)

theorem takesNoBlank_fraction : TakesNoBlank fractionLength := by
  intro cs
  unfold fractionLength
  split
  · next e r =>
    split
    · simp
    · exact List.forall_mem_cons.2 ⟨by decide, takesNoBlank_groups (e :: r)⟩
  · simp; decide
  · simp

theorem takesNoBlank_exponent : TakesNoBlank exponentLength := by
  intro cs
  match cs with
  | [] => simp
  | [_] => simp [exponentLength]
  | e :: d :: r =>
    have hmark : (e == 'e' || e == 'E') = true → isBlank e = false := by
      intro he
      rcases Bool.or_eq_true_iff.1 he with he | he <;> (obtain rfl := beq_iff_eq.1 he; decide)
    have hsign : (d == '+' || d == '-') = true → isBlank d = false := by
      intro hd
      rcases Bool.or_eq_true_iff.1 hd with hd | hd <;> (obtain rfl := beq_iff_eq.1 hd; decide)
    rw [exponentLength_cons]
    split
    · next he =>
      split
      · next hd =>
        split
        · simp
        · exact List.forall_mem_cons.2 ⟨hmark he,
            List.forall_mem_cons.2 ⟨hsign hd, takesNoBlank_groups r⟩⟩
      · split
        · simp
        · exact List.forall_mem_cons.2 ⟨hmark he, takesNoBlank_groups (d :: r)⟩
    · simp

/-- A number is not empty and has no blanks. -/
theorem isBlank_number (hc : c.isDigit = true) (r : List Char) :
    0 < numberLength c r ∧ ∀ d ∈ (c :: r).take (numberLength c r), isBlank d = false := by
  have hfirst : isBlank c = false := isBlank_of_isIdentifierTail (isIdentifierTail_of_isDigit hc)
  have hplain : TakesNoBlank plainNumberLength :=
    ((takesNoBlank_groups.andThen takesNoBlank_fraction).andThen takesNoBlank_exponent).andThen
      takesNoBlank_tails
  by_cases hmark : c = '0' ∧ ∃ d q, r = d :: q ∧ d ∈ baseMarks
  · obtain ⟨rfl, d, q, rfl, hd⟩ := hmark
    rw [numberLength_marked hd]
    exact ⟨Nat.succ_pos _, List.forall_mem_cons.2 ⟨hfirst, takesNoBlank_tails (d :: q)⟩⟩
  · rw [numberLength_plain fun h d q hr hd => hmark ⟨h, d, q, hr, hd⟩]
    exact ⟨Nat.succ_pos _, List.forall_mem_cons.2 ⟨hfirst, hplain r⟩⟩

/-- A lexeme that the grammar has a use for is not empty. -/
theorem lexeme_pos {r : List Char} {n : Nat} (h : lexeme c r = (kind, n)) (hkind : IsSound kind) :
    0 < n := by
  have hview := lexemeView c r
  rw [h] at hview
  cases hview with
  | number hc => exact (isBlank_number hc r).1
  | sign _ _ hn => exact hn
  | none hnone => exact absurd hkind (by rcases hnone with rfl | rfl <;> simp [IsSound])
  | _ => omega

/-- A comment begins with a slash. -/
theorem eq_slash_of_comment {r : List Char} {n : Nat} (h : lexeme c r = (.comment, n)) : c = '/' := by
  have hview := lexemeView c r
  rw [h] at hview
  cases hview with
  | literal hkind => simpa using hkind
  | line hc => exact hc
  | none hnone => simp at hnone

/-- No lexeme but a stray one begins with a blank. -/
theorem lexeme_of_isBlank (hc : isBlank c = true) (r : List Char) : lexeme c r = (.stray, 1) := by
  have hstart : isWordStart c = false := by
    rw [Bool.eq_false_iff]
    intro hstart
    exact absurd (hc.symm.trans (isBlank_of_isIdentifierTail (isIdentifierTail_of_isWordStart hstart)))
      (by decide)
  have hdigit : c.isDigit = false := by
    rw [Bool.eq_false_iff]
    intro hdigit
    exact absurd (hc.symm.trans (isBlank_of_isIdentifierTail (isIdentifierTail_of_isDigit hdigit)))
      (by decide)
  have hsign : isPunctuation c = false := by
    rw [Bool.eq_false_iff]
    intro hsign
    exact absurd (hc.symm.trans (isBlank_of_isPunctuation hsign)) (by decide)
  have hjoined : joinedPunctuation.find? (·.isPrefixOf (c :: r)) = none := by
    rw [List.find?_eq_none]
    intro p hp hprefix
    obtain ⟨hlength, hplain⟩ := isBlank_joined hp
    obtain ⟨d, q, rfl⟩ := List.exists_cons_of_length_pos hlength
    have hd : d = c := by simp_all
    exact absurd (hc.symm.trans (hd ▸ hplain d List.mem_cons_self)) (by decide)
  unfold lexeme
  split
  all_goals first
    | exact absurd hc (by decide)
    | simp [hstart, hdigit, hjoined, hsign]

theorem getLast?_of_forall {d : Char} {cs : List Char} (h : ∀ e ∈ d :: cs, isBlank e = false) :
    ∃ e, (d :: cs).getLast? = some e ∧ isBlank e = false := by
  obtain ⟨e, he⟩ := Option.isSome_iff_exists.1 (List.getLast?_isSome.2 (List.cons_ne_nil d cs))
  exact ⟨e, he, h e (List.mem_of_getLast? he)⟩

/-- **A lexeme that is no comment ends with no blank.** -/
theorem isBlank_last (h : lexeme c (w ++ a) = (kind, w.length + 1)) (hkind : IsSound kind)
    (hcomment : kind ≠ .comment) : ∃ d, (c :: w).getLast? = some d ∧ isBlank d = false := by
  have hview := lexemeView c (w ++ a)
  have htake : (c :: (w ++ a)).take (w.length + 1) = c :: w := by simp
  have hstart : ∀ {d}, isWordStart d = true → isBlank d = false := fun hd =>
    isBlank_of_isIdentifierTail (isIdentifierTail_of_isWordStart hd)
  generalize hn : w.length + 1 = n at h htake
  rw [h] at hview
  cases hview with
  | @literal f p q m kind _ hr hq hcut =>
    obtain ⟨d, hd, hblank⟩ := hq.last
    refine ⟨d, ?_, hblank⟩
    rw [← htake, hr, List.take_succ_cons, List.getLast?_cons, List.take_append,
      List.take_of_length_le (Nat.le_add_left _ _), Nat.add_sub_cancel, List.getLast?_append, hd]
    rfl
  | line => exact absurd rfl hcomment
  | @lifetime d q hc hr hd =>
    subst hc
    rw [hr] at htake
    exact getLast?_of_forall (htake ▸ List.forall_mem_cons.2 ⟨by decide, List.forall_mem_cons.2
      ⟨hstart hd, takesNoBlank_tails q⟩⟩)
  | @dollar d q hc hr hd =>
    subst hc
    have hplain : isPlain d = true := by rcases hd with hd | rfl <;> simp [isPlain, Char.isAlphanum, *]
    rw [hr] at htake
    exact getLast?_of_forall (htake ▸ List.forall_mem_cons.2 ⟨by decide, List.forall_mem_cons.2
      ⟨isBlank_of_isIdentifierTail (isIdentifierTail_of_isPlain hplain), takesNoBlank_tails q⟩⟩)
  | @rawWord d q hc hr hd =>
    subst hc
    rw [hr] at htake
    exact getLast?_of_forall (htake ▸ List.forall_mem_cons.2 ⟨by decide, List.forall_mem_cons.2
      ⟨by decide, List.forall_mem_cons.2 ⟨hstart hd, takesNoBlank_tails q⟩⟩⟩)
  | word hc hr =>
    exact getLast?_of_forall (htake ▸ List.forall_mem_cons.2 ⟨hstart hc, takesNoBlank_tails _⟩)
  | number hc => exact getLast?_of_forall (htake ▸ (isBlank_number hc (w ++ a)).2)
  | sign _ _ _ hplain => exact getLast?_of_forall (htake ▸ hplain)
  | none hnone => exact absurd hkind (by rcases hnone with rfl | rfl <;> simp [IsSound])

end Blanks

/-! ## The laws -/

section Laws

variable {c : Char} {w a b : List Char} {kind : TokenKind} {n : Nat}

/-- Whether a comment is documentation is told by two characters. -/
theorem isDocumentationLine_cons (d e : Char) (r : List Char) :
    isDocumentationLine (d :: e :: r) = (d == '/' && e != '/' || d == '!') := by
  unfold isDocumentationLine
  split
  · simp_all
  · next q hslash heq =>
    obtain ⟨rfl, rfl⟩ := List.cons.inj heq
    have he : e ≠ '/' := fun he => hslash r (by rw [he])
    simp [he]
  · simp_all
  · simp_all

/-- A line with a comment ends with its line feed, or before it. -/
theorem lexeme_line {u : List Char} (hu : '\n' ∉ u) (rest : List Char) :
    lexeme '/' ('/' :: (u ++ '\n' :: rest)) =
      (.comment, u.length + if isDocumentationLine (u ++ ['\n']) then 3 else 2) := by
  have hrun : runLength (· != '\n') (u ++ '\n' :: rest) = u.length :=
    runLength_append (by simpa [List.forall_mem_ne'] using hu) (by simp)
  have hmark : isDocumentationLine (u ++ '\n' :: rest) = isDocumentationLine (u ++ ['\n']) := by
    rcases u with _ | ⟨d, _ | ⟨e, u⟩⟩
    · rfl
    · exact (isDocumentationLine_cons ..).trans (isDocumentationLine_cons ..).symm
    · exact (isDocumentationLine_cons ..).trans (isDocumentationLine_cons ..).symm
  have hlexeme : lexeme '/' ('/' :: (u ++ '\n' :: rest)) =
      if isDocumentationLine (u ++ '\n' :: rest) && u.length < (u ++ '\n' :: rest).length
      then (.comment, u.length + 3) else (.comment, u.length + 2) := by
    rw [← hrun]
    rfl
  rw [hlexeme, hmark]
  cases isDocumentationLine (u ++ ['\n']) <;> simp

/-- What opens a literal is no sign. -/
theorem closed_ne {opening : Nat} {rest : List Char} {m : Option Nat} (hkind : kind ≠ .punctuation) :
    closed kind opening rest m ≠ (.punctuation, n) := by
  intro h
  cases m with
  | none => exact absurd (congrArg Prod.fst h) (by simp [closed])
  | some m => exact hkind (congrArg Prod.fst h)

/-- A sign is the same before both texts. -/
theorem lexeme_sign_alike (hc : isWordStart c = false) (h : lexeme c a = (.punctuation, n))
    (hab : Alike a b) : lexeme c b = (.punctuation, n) := by
  unfold lexeme at h
  split at h
  · dsimp only at h
    split at h <;> exact absurd (congrArg Prod.fst h) (by simp)
  · exact absurd h (closed_ne (by decide))
  · exact absurd h (closed_ne (by decide))
  · split at h
    · exact absurd (congrArg Prod.fst h) (by simp)
    · split at h <;> exact absurd (congrArg Prod.fst h) (by simp)
    · exact absurd (congrArg Prod.fst h) (by simp)
  · next d q =>
    split at h
    · exact absurd (congrArg Prod.fst h) (by simp)
    · next hd =>
      cases hab with
      | stop => exact h
      | cons _ hab => simpa [lexeme, hd] using h
  · next htext hquote hline hblock hdollar =>
    unfold lexeme
    split
    · next q =>
      obtain ⟨s, rfl, -⟩ := hab.exists_cons (by decide)
      exact absurd rfl (hline s rfl)
    · next q =>
      obtain ⟨s, rfl, -⟩ := hab.exists_cons (by decide)
      exact absurd rfl (hblock s rfl)
    · exact absurd rfl htext
    · exact absurd rfl hquote
    · next d q =>
      cases hab with
      | stop _ r => exact absurd rfl (hdollar _ r rfl)
      | cons _ hab => exact absurd rfl (hdollar _ _ rfl)
    · rw [(Alike.cons c hab).find_joinedPunctuation] at h
      simp only [hc, Bool.false_eq_true, if_false] at h ⊢
      split at h
      · exact absurd (congrArg Prod.fst h) (by simp)
      · next hdigit => rwa [if_neg hdigit]

theorem exists_cons_of_append {d : Char} {q : List Char} (h : w ++ a = d :: q) (hw : 0 < w.length) :
    ∃ v, w = d :: v ∧ v ++ a = q := by
  obtain ⟨e, v, rfl⟩ := List.exists_cons_of_length_pos hw
  obtain ⟨rfl, hv⟩ := List.cons.inj h
  exact ⟨v, rfl, hv⟩

theorem tails_eq (h : Alike a b) : runLength isIdentifierTail b = runLength isIdentifierTail a :=
  (h.takes_run Alike.tail_of_apart).1.symm

/-- A word is no beginning of a literal before both texts. -/
theorem IsPlainWord.alike (h : IsPlainWord c a) (hab : Alike a b)
    (hquote : c = 'b' → ∀ q, b = '\'' :: q → characterLength q = none) : IsPlainWord c b where
  quote := hquote
  text hc q hq := by
    subst hq
    obtain ⟨s, rfl, -⟩ := hab.exists_cons (by decide)
    exact h.text hc s rfl
  rawText hc q hq := by
    subst hq
    obtain ⟨s, rfl, hs⟩ := hab.exists_cons (by decide)
    exact hs.rawStringStart_eq_none (h.rawText hc s rfl)
  raw hc := by
    refine ⟨hab.rawStringStart_eq_none (h.raw hc).1, fun d q hq => ?_⟩
    subst hq
    obtain ⟨s, rfl, hs⟩ := hab.exists_cons (by decide)
    cases hs with
    | stop => decide
    | cons _ hs => exact (h.raw hc).2 _ _ rfl

theorem ne_quote_of_isWordStart {d : Char} (hd : isWordStart d = true) : d ≠ '\'' ∧ d ≠ '\\' := by
  constructor <;> rintro rfl <;> exact absurd hd (by decide)

/-- A character that begins a word makes a literal only with a quote behind it. -/
theorem characterLength_eq_none_iff {d : Char} (hd : isWordStart d = true) {q : List Char} :
    characterLength (d :: q) = none ↔ ∀ s, q ≠ '\'' :: s := by
  obtain ⟨hquote, hescape⟩ := ne_quote_of_isWordStart hd
  unfold characterLength
  split <;> simp_all

/-- The last line of a text. -/
theorem lexeme_lastLine {q : List Char} (hq : '\n' ∉ q) :
    lexeme '/' ('/' :: q) = (.comment, q.length + 2) := by
  have hrun : runLength (· != '\n') q = q.length := by
    have hall : q.all (· != '\n') = true := by simpa [List.forall_mem_ne'] using hq
    have hnil : ∀ c ∈ ([] : List Char).head?, (c != '\n') = false := by simp
    simpa using runLength_append hall hnil
  simp [lexeme, hrun]

/-- A line with a comment is cut off before texts that begin with the same character. -/
theorem lexeme_line_alike (h : lexeme '/' ('/' :: (w ++ a)) = (.comment, w.length + 2)) (ha : a ≠ [])
    (hab : a.head? = b.head?) : lexeme '/' ('/' :: (w ++ b)) = (.comment, w.length + 2) := by
  have hfeed : '\n' ∈ w ++ a := by
    by_contra hnone
    have hlength := congrArg Prod.snd ((lexeme_lastLine hnone).symm.trans h)
    simp [ha] at hlength
  obtain ⟨v, rest, hv, hnone⟩ := List.eq_append_cons_of_mem hfeed
  have hline := h
  rw [hv, lexeme_line hnone] at hline
  have hlength := congrArg Prod.snd hline
  cases hmark : isDocumentationLine (v ++ ['\n']) with
  | false =>
    simp only [hmark, Bool.false_eq_true, if_false, Nat.add_right_cancel_iff] at hlength
    obtain ⟨rfl, rfl⟩ := List.append_inj hv hlength.symm
    obtain ⟨s, rfl⟩ := List.head?_eq_some_iff.1 hab.symm
    rw [lexeme_line hnone, hmark]
    rfl
  | true =>
    have hsplit : w ++ a = (v ++ ['\n']) ++ rest := by rw [hv, List.append_assoc]; rfl
    simp only [hmark, if_true] at hlength
    obtain ⟨rfl, rfl⟩ := List.append_inj hsplit (by simp; omega)
    rw [List.append_assoc, List.singleton_append, lexeme_line hnone, hmark]
    simp

/-- **A lexeme that is cut off before one text is cut off before another** that begins alike, unless the
two end a comment in different ways, or a quote behind a `b` begins a character. -/
theorem lexeme_alike (h : lexeme c (w ++ a) = (kind, w.length + 1)) (hkind : IsSound kind)
    (hab : Alike a b) (hcomment : kind = .comment → a.head? = b.head?)
    (hquote : kind = .word → c = 'b' → ∀ q, w ++ b = '\'' :: q → characterLength q = none) :
    lexeme c (w ++ b) = (kind, w.length + 1) := by
  have hview := lexemeView c (w ++ a)
  have hall := hab.append w
  generalize hn : w.length + 1 = n at h
  rw [h] at hview
  cases hview with
  | @literal f p q m kind _ hr hq hcut =>
    obtain rfl : w = p ++ q.take m := by
      have htake := congrArg (List.take (m + p.length)) hr
      rw [List.take_left' (by omega)] at htake
      rw [htake, List.take_append, List.take_of_length_le (Nat.le_add_left _ _), Nat.add_sub_cancel]
    rw [List.append_assoc]
    exact hcut _ (hq.take b)
  | @line q _ hc hr hlength =>
    obtain ⟨w, rfl, rfl⟩ := exists_cons_of_append hr (by omega)
    subst hc hn
    exact lexeme_line_alike h (by rintro rfl; nomatch hab) (hcomment rfl)
  | @lifetime d q hc hr hd hnone =>
    subst hc
    obtain ⟨w, rfl, rfl⟩ := exists_cons_of_append hr (by omega)
    have hnone' : characterLength (d :: (w ++ b)) = none := by
      refine (characterLength_eq_none_iff hd).2 fun s hs => ?_
      obtain ⟨s', hs', -⟩ := (hs ▸ hab.append w).exists_cons (by decide)
      exact (characterLength_eq_none_iff hd).1 hnone s' hs'
    simp [lexeme, hnone', hd, tails_eq (hab.append w)]
  | @dollar d q hc hr hd =>
    subst hc
    obtain ⟨w, rfl, rfl⟩ := exists_cons_of_append hr (by omega)
    have hd' : (d.isAlpha || d == '_') = true := by simpa using hd
    simp [lexeme, hd', tails_eq (hab.append w)]
  | @rawWord d q hc hr hd =>
    subst hc
    obtain ⟨v, rfl, hv⟩ := exists_cons_of_append hr (by omega)
    obtain ⟨w, rfl, rfl⟩ := exists_cons_of_append hv (by simp at hn; omega)
    rw [lexeme_of_isWordStart (by decide)]
    simp [wordLexeme, hd, tails_eq (hab.append w)]
  | word hc hr =>
    rw [lexeme_of_isWordStart hc, (hr.alike hall (hquote rfl)).wordLexeme_eq, tails_eq hall]
  | number hc => rw [lexeme_of_isDigit hc, hall.numberLength_eq]
  | sign hc hr => exact lexeme_sign_alike hc h hall
  | none hnone => exact absurd hkind (by rcases hnone with rfl | rfl <;> simp [IsSound])

end Laws

end ModelPool.Source
