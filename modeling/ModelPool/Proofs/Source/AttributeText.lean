import Mathlib.Data.List.Basic
import ModelPool.Proofs.Source.AttributeLayout

/-!
# Proofs/Source/AttributeText — which attributes are read as their tokens say

    # [ model (a = 1) ]      model, with the arguments  a = 1
    #[ /* c */ model]        a path that begins with a slash
    #[model(a) /* c */]      nothing

An attribute is read from its text, where nothing is known of tokens: white space is passed over at most of the
places between them, and comments at none.  The plain layouts are those that are read like the tight one.

* `AttributeLayout.ofText?_plain` — a plain layout is read like the tight one.
* `AttributeLayout.ofText?_eq_meaning_iff` — the plain layouts are those that are read as their tokens say.
-/

namespace ModelPool

open Text

/-! ## Reading between the brackets -/

namespace Attribute

/-- A character of the path: the two others begin the arguments. -/
def inPath (c : Char) : Bool := c != '(' && c != '='

theorem inPath_of_isBlank {c : Char} (hc : isBlank c = true) : inPath c = true := by
  have hne : ∀ {d : Char}, isBlank d = false → c ≠ d := fun hd heq => by simp [heq, hd] at hc
  simp [inPath, hne (d := '(') (by decide), hne (d := '=') (by decide)]

/-- An attribute from what stands between its brackets. -/
def ofInside? (inside : List Char) : Option Attribute := do
  let args ← arguments? (inside.dropWhile inPath)
  let name := trim (inside.takeWhile inPath)
  if name.isEmpty then none else some ⟨String.ofList name, args⟩

theorem ofText?_eq (text : String) : ofText? text = (inside? text.toList).bind ofInside? := rfl

/-- The path of an attribute that has been read, and its arguments. -/
theorem ofInside?_eq_some_iff {inside name : List Char} {args : Option String} :
    ofInside? inside = some ⟨String.ofList name, args⟩ ↔ arguments? (inside.dropWhile inPath) = some args ∧
      trim (inside.takeWhile inPath) = name ∧ name ≠ [] := by
  cases hargs : arguments? (inside.dropWhile inPath) with
  | none => simp [ofInside?, hargs]
  | some found =>
    by_cases hempty : trim (inside.takeWhile inPath) = []
    · simp only [ofInside?, hargs, Option.bind_eq_bind, Option.bind_some, hempty]
      simp
    · simp only [ofInside?, hargs, Option.bind_eq_bind, Option.bind_some, List.isEmpty_iff, if_neg hempty,
        Option.some.injEq, Attribute.mk.injEq, String.ofList_inj]
      constructor
      · rintro ⟨rfl, rfl⟩
        exact ⟨rfl, rfl, hempty⟩
      · rintro ⟨rfl, rfl, -⟩
        exact ⟨rfl, rfl⟩

/-- What follows the hash sign, or the mark behind it. -/
def BeginsWithHash (cs body : List Char) : Prop :=
  trim cs = '#' :: body ∧ body.head? ≠ some '!' ∨ trim cs = '#' :: '!' :: body

variable {cs body r : List Char}

theorem inside?_of_opens (h : BeginsWithHash cs body) (hbody : trim body = '[' :: (r ++ [']'])) :
    inside? cs = some (trim r) := by
  rcases h with ⟨hcs, hmark⟩ | hcs
  · cases body with
    | nil => exact absurd hbody (by simp [trim, trimStart])
    | cons c body =>
      have hc : c ≠ '!' := by simpa using hmark
      simp [inside?, hcs, hc, hbody, dropLast?]
  · simp [inside?, hcs, hbody, dropLast?]

theorem inside?_of_not_opens (h : BeginsWithHash cs body) (hbody : ∀ r, trim body ≠ '[' :: r) : inside? cs = none := by
  rcases h with ⟨hcs, hmark⟩ | hcs
  · cases body with
    | nil =>
      rw [inside?, hcs]
      rfl
    | cons c body =>
      have hc : c ≠ '!' := by simpa using hmark
      rw [inside?, hcs]
      simp [hc]
  · rw [inside?, hcs]
    simp

section Path

variable {before path gap tail name inside : List Char} {args : Option String}

/-- A path with white space around it, up to the sign that begins the arguments. -/
theorem ofInside?_append (hinside : trim inside = path) (hne : path ≠ []) (hin : ∀ c ∈ inside, inPath c = true)
    (htail : ∀ c ∈ tail.head?, inPath c = false) :
    ofInside? (inside ++ tail) = some ⟨String.ofList name, args⟩ ↔ arguments? tail = some args ∧ path = name := by
  have hsplit : tail.dropWhile inPath = tail ∧ tail.takeWhile inPath = [] := by
    cases tail with
    | nil => exact ⟨rfl, rfl⟩
    | cons c r =>
      have hc := htail c rfl
      exact ⟨List.dropWhile_cons_of_neg (by simp [hc]), List.takeWhile_cons_of_neg (by simp [hc])⟩
  rw [ofInside?_eq_some_iff, List.dropWhile_append_of_pos hin, List.takeWhile_append_of_pos hin, hsplit.1, hsplit.2,
    List.append_nil, hinside]
  exact ⟨fun h => ⟨h.1, h.2.1⟩, fun h => ⟨h.1, h.2, h.2 ▸ hne⟩⟩

/-- **A path between white space**, and what begins the arguments. -/
theorem ofInside?_trim (hbefore : ∀ c ∈ before, isBlank c = true) (hne : path ≠ [])
    (hpath : ∀ c ∈ path, inPath c = true) (hfirst : ∀ c ∈ path.head?, isBlank c = false)
    (hlast : ∀ c ∈ path.getLast?, isBlank c = false) (hgap : ∀ c ∈ gap, isBlank c = true)
    (htail : ∀ c ∈ tail.head?, inPath c = false) :
    ofInside? (trim (before ++ (path ++ (gap ++ tail)))) = some ⟨String.ofList name, args⟩ ↔
      arguments? (trimEnd tail) = some args ∧ path = name := by
  have htrim := trim_of_ends hfirst hlast
  cases tail with
  | nil =>
    rw [List.append_nil, ← List.append_assoc, trim_between hbefore _ hgap, htrim, ← List.append_nil path,
      ofInside?_append (List.append_nil path ▸ htrim) hne hpath (by simp), List.append_nil]
    rfl
  | cons c r =>
    have hc : isBlank c = false := Bool.eq_false_iff.2 fun hblank =>
      absurd ((inPath_of_isBlank hblank).symm.trans (htail c rfl)) (by decide)
    have hlead : trim (before ++ (path ++ (gap ++ c :: r))) = (path ++ gap) ++ trimEnd (c :: r) := by
      obtain ⟨d, front, rfl⟩ := List.exists_cons_of_ne_nil hne
      have hbetween := trim_between hbefore (d :: front ++ (gap ++ c :: r)) (List.forall_mem_nil _)
      rw [List.append_nil, List.cons_append, trim_cons (hfirst d rfl)] at hbetween
      rw [List.cons_append, hbetween, ← List.cons_append, ← List.append_assoc, trimEnd_front _ hc]
    have hall : ∀ c ∈ path ++ gap, inPath c = true :=
      List.forall_mem_append.2 ⟨hpath, fun c hc => inPath_of_isBlank (hgap c hc)⟩
    rw [hlead, ofInside?_append ((trim_append_blanks _ hgap).trans htrim) hne hall
      (by simpa [trimEnd_cons hc] using htail c rfl)]

end Path

end Attribute

namespace Source

open Lexeme Attribute

namespace Spaced

/-- The first character behind a gap is a blank, a slash, or that of the token. -/
theorem IsSpaced.head?_gap {p : Spaced} (h : p.IsSpaced) (cs : List Char) :
    ∀ c ∈ (p.gap ++ cs).head?, isBlank c = true ∨ c = '/' ∨ cs.head? = some c := by
  intro c hc
  by_cases hsome : p.comments = []
  · cases hgap : p.gap with
    | nil =>
      rw [hgap] at hc
      exact .inr (.inr hc)
    | cons d r =>
      rw [hgap] at hc
      obtain rfl : d = c := by simpa using hc
      exact .inl (h.blank hsome d (by rw [hgap]; exact List.mem_cons_self))
  · obtain ⟨bs, r, hslash, hbs⟩ := h.exists_slash hsome
    rw [hslash] at hc
    cases bs with
    | nil => exact .inr (.inl (by simpa using hc.symm))
    | cons d bs =>
      obtain rfl : d = c := by simpa using hc
      exact .inl (hbs d List.mem_cons_self)

/-- No bracket stands behind comments, nor behind white space before anything else. -/
theorem IsSpaced.trim_ne {p : Spaced} (h : p.IsSpaced) {cs : List Char}
    (hcs : p.comments = [] → ∃ c r, cs = c :: r ∧ isBlank c = false ∧ c ≠ '[') (r : List Char) :
    trim (p.gap ++ cs) ≠ '[' :: r := by
  have hne : ∀ c r', isBlank c = false → c ≠ '[' → trimStart (p.gap ++ cs) = c :: r' →
      trim (p.gap ++ cs) ≠ '[' :: r := fun c r' hblank hc hstart heq => by
    rw [trim, hstart, trimEnd_cons hblank] at heq
    exact hc (List.cons.inj heq).1
  by_cases hnone : p.comments = []
  · obtain ⟨c, r', rfl, hblank, hc⟩ := hcs hnone
    refine hne c r' hblank hc (((h.trimStart_gap _).1 hnone).trans ?_)
    rw [trimStart, List.dropWhile_cons_of_neg (by simp [hblank])]
  · obtain ⟨r', hslash⟩ := (h.trimStart_gap cs).2 hnone
    exact hne '/' r' (by decide) (by decide) hslash

end Spaced

namespace AttributeLayout

variable {l : AttributeLayout}

/-- What stands behind the hash sign and the mark. -/
def body (l : AttributeLayout) : List Char := l.opening.gap ++ '[' :: (l.content ++ [']'])

theorem toList_text (h : l.IsGrammatical) :
    l.text.toList = '#' :: (Spaced.printed l.mark.toList ++ l.body) := by
  have hopening : l.opening.text = ['['] := congrArg String.toList h.opening.1
  have hclosing : l.closing.text = [']'] := congrArg String.toList h.closing.1
  have hprinted : ∀ ps, print (ps.flatMap Spaced.lexemes) = Spaced.printed ps := fun _ => rfl
  rw [text, String.toList_ofList, lexemes, List.cons_append, List.cons_append, spanned, h.hash, Lexeme.print_append,
    Lexeme.print_append, hprinted, Spaced.printed_append, Spaced.printed_cons, Spaced.print_lexemes, hopening, hclosing, body, content]
  simp

theorem trim_text (h : l.IsGrammatical) : trim l.text.toList = l.text.toList := by
  rw [toList_text h]
  refine trim_of_ends (fun c hc => ?_) fun c hc => ?_
  · obtain rfl : '#' = c := by simpa using hc
    decide
  · have hlast : '#' :: (Spaced.printed l.mark.toList ++ l.body) =
        ('#' :: (Spaced.printed l.mark.toList ++ (l.opening.gap ++ '[' :: l.content))) ++ [']'] := by simp [body]
    rw [hlast, List.getLast?_concat] at hc
    obtain rfl : ']' = c := by simpa using hc
    decide

/-- The hash sign and the mark are passed over if nothing stands between them. -/
theorem opens_body (h : l.IsGrammatical) (hmark : ∀ m ∈ l.mark, m.gap = []) :
    BeginsWithHash l.text.toList l.body := by
  rw [BeginsWithHash, trim_text h, toList_text h]
  cases hsome : l.mark with
  | none =>
    refine .inl ⟨rfl, fun hbang => ?_⟩
    rcases h.opening.2.head?_gap _ '!' hbang with hblank | hslash | hopening
    · exact absurd hblank (by decide)
    · exact absurd hslash (by decide)
    · exact absurd hopening (by simp)
  | some m =>
    have hm : m.text = ['!'] := congrArg String.toList (h.mark m hsome).1
    exact .inr (by simp [hmark m hsome, hm])

/-- **Between the brackets**, where only white space stands before the first of them. -/
theorem inside?_of_opensPlain (h : l.IsGrammatical) (hopens : l.OpensPlain) :
    inside? l.text.toList = some (trim l.content) := by
  refine inside?_of_opens (opens_body h hopens.1) ?_
  have hends : trim ('[' :: (l.content ++ [']'])) = '[' :: (l.content ++ [']']) := by
    refine trim_of_ends (fun c hc => ?_) fun c hc => ?_
    · obtain rfl : '[' = c := by simpa using hc
      decide
    · rw [← List.cons_append, List.getLast?_concat] at hc
      obtain rfl : ']' = c := by simpa using hc
      decide
  have hbetween := trim_between (h.opening.2.blank hopens.2) ('[' :: (l.content ++ [']'])) (List.forall_mem_nil _)
  rwa [List.append_nil, hends] at hbetween

/-- Anything else before them is in the way. -/
theorem inside?_of_not_opensPlain (h : l.IsGrammatical) (hopens : ¬ l.OpensPlain) :
    inside? l.text.toList = none := by
  by_cases hmark : ∀ m ∈ l.mark, m.gap = []
  · exact inside?_of_not_opens (opens_body h hmark)
      (h.opening.2.trim_ne fun hnone => absurd ⟨hmark, hnone⟩ hopens)
  · obtain ⟨m, hsome, hgap⟩ : ∃ m ∈ l.mark, m.gap ≠ [] := by simpa using hmark
    obtain ⟨hbang, hspaced⟩ := h.mark m hsome
    have hbang : m.text = ['!'] := congrArg String.toList hbang
    have htext : l.text.toList = '#' :: (m.gap ++ '!' :: l.body) := by
      rw [toList_text h, Option.mem_def.1 hsome]
      simp [hbang]
    refine inside?_of_not_opens (.inl ⟨(trim_text h).trans htext, fun hhead => ?_⟩)
      (hspaced.trim_ne fun _ => ⟨'!', _, rfl, by decide, by decide⟩)
    obtain ⟨d, g, hd⟩ := List.exists_cons_of_ne_nil hgap
    obtain rfl : d = '!' := by simpa [hd] using hhead
    rcases hspaced.head?_gap [] '!' (by rw [hd]; rfl) with hblank | hslash | hnil
    · exact absurd hblank (by decide)
    · exact absurd hslash (by decide)
    · exact absurd hnil (by simp)

end AttributeLayout

/-! ## Paths -/

namespace Spaced

variable {p : Spaced} {ps : List Spaced} {cs : List Char}

/-- What a path is spelled with: no blank, no slash, and no sign that begins arguments. -/
theorem chars_of_isPathText (h : IsPathText cs) :
    cs ≠ [] ∧ ∀ c ∈ cs, isBlank c = false ∧ inPath c = true ∧ c ≠ '/' := by
  rcases h with rfl | hword
  · exact ⟨by decide, List.forall_mem_cons.2 ⟨by decide, List.forall_mem_singleton.2 (by decide)⟩⟩
  · refine ⟨ne_nil_of_isWord hword, fun c hc => ?_⟩
    have hne : ∀ {d : Char}, isIdentifierTail d = false → d ≠ '#' → c ≠ d := fun htail hhash heq =>
      not_mem_of_isWord hword htail hhash (heq ▸ hc)
    exact ⟨isBlank_of_isWord hword c hc, by simp [inPath, hne (d := '(') (by decide), hne (d := '=') (by decide)],
      hne (by decide) (by decide)⟩

/-- **A comment shows** in the path: the slash that it begins with is no sign that begins arguments. -/
theorem IsSpaced.comments_eq_nil_of_path (h : p.IsSpaced) (hslash : '/' ∉ (squeeze (p.gap ++ cs)).takeWhile inPath) :
    p.comments = [] ∧ '/' ∉ (squeeze cs).takeWhile inPath := by
  by_cases hnone : p.comments = []
  · refine ⟨hnone, ?_⟩
    rwa [squeeze_append, squeeze_eq_nil_iff.2 (h.blank hnone), List.nil_append] at hslash
  · obtain ⟨bs, r, hgap, hbs⟩ := h.exists_slash hnone
    rw [hgap, List.append_assoc, squeeze_append, squeeze_eq_nil_iff.2 hbs, List.nil_append, List.cons_append,
      squeeze_cons (by decide), List.takeWhile_cons_of_pos (by decide)] at hslash
    exact absurd List.mem_cons_self hslash

/-- So no comment stands in a path where no slash does. -/
theorem comments_eq_nil_of_path (hps : ∀ p ∈ ps, IsPathText p.text ∧ p.IsSpaced)
    (hslash : '/' ∉ (squeeze (printed ps ++ cs)).takeWhile inPath) :
    (∀ p ∈ ps, p.comments = []) ∧ '/' ∉ (squeeze cs).takeWhile inPath := by
  induction ps with
  | nil => exact ⟨List.forall_mem_nil _, hslash⟩
  | cons p ps ih =>
    obtain ⟨⟨htext, hspaced⟩, hps⟩ := List.forall_mem_cons.1 hps
    have hchars := (chars_of_isPathText htext).2
    rw [printed_cons, List.append_assoc] at hslash
    obtain ⟨hnone, hslash⟩ := hspaced.comments_eq_nil_of_path hslash
    rw [List.append_assoc, squeeze_append, squeeze_of_forall fun c hc => (hchars c hc).1,
      List.takeWhile_append_of_pos fun c hc => (hchars c hc).2.1] at hslash
    obtain ⟨hrest, hslash⟩ := ih hps fun hmem => hslash (List.mem_append_right _ hmem)
    exact ⟨List.forall_mem_cons.2 ⟨hnone, hrest⟩, hslash⟩

theorem length_texts_le (ps : List Spaced) : (texts ps).length ≤ (printed ps).length := by
  induction ps with
  | nil => exact le_rfl
  | cons p ps ih =>
    simp only [texts_cons, printed_cons, List.length_append]
    omega

/-- **Tokens are printed as their texts** only where nothing stands between them. -/
theorem gap_eq_nil_of_printed (h : printed ps = texts ps) : ∀ p ∈ ps, p.gap = [] := by
  induction ps with
  | nil => exact List.forall_mem_nil _
  | cons p ps ih =>
    have hle := length_texts_le ps
    have hlength := congrArg List.length h
    simp only [texts_cons, printed_cons, List.length_append] at hlength
    have hgap : p.gap = [] := List.length_eq_zero_iff.1 (by omega)
    rw [texts_cons, printed_cons, hgap, List.nil_append] at h
    exact List.forall_mem_cons.2 ⟨hgap, ih (List.append_cancel_left h)⟩

theorem printed_of_gap (h : ∀ p ∈ ps, p.gap = []) : printed ps = texts ps := by
  induction ps with
  | nil => rfl
  | cons p ps ih =>
    obtain ⟨hp, hps⟩ := List.forall_mem_cons.1 h
    rw [printed_cons, texts_cons, hp, ih hps, List.nil_append]

/-- The characters of a path with white space in it. -/
theorem inPath_of_printed (hps : ∀ p ∈ ps, IsPathText p.text ∧ p.IsSpaced) (hnone : ∀ p ∈ ps, p.comments = []) :
    ∀ c ∈ printed ps, inPath c = true := by
  induction ps with
  | nil => exact List.forall_mem_nil _
  | cons p ps ih =>
    obtain ⟨⟨htext, hspaced⟩, hps⟩ := List.forall_mem_cons.1 hps
    obtain ⟨hp, hnone⟩ := List.forall_mem_cons.1 hnone
    rw [printed_cons]
    exact List.forall_mem_append.2 ⟨fun c hc => inPath_of_isBlank (hspaced.blank hp c hc),
      List.forall_mem_append.2 ⟨fun c hc => ((chars_of_isPathText htext).2 c hc).2.1, ih hps hnone⟩⟩

/-- Neither end of a path is blank. -/
theorem ends_path (hps : ∀ q ∈ p :: ps, IsPathText q.text ∧ q.IsSpaced) :
    (∀ c ∈ (p.text ++ printed ps).head?, isBlank c = false) ∧
      ∀ c ∈ (p.text ++ printed ps).getLast?, isBlank c = false := by
  induction ps generalizing p with
  | nil =>
    have hchars := (chars_of_isPathText (hps p List.mem_cons_self).1).2
    rw [printed_nil, List.append_nil]
    exact ⟨fun c hc => (hchars c (List.mem_of_mem_head? hc)).1, fun c hc => (hchars c (List.mem_of_getLast? hc)).1⟩
  | cons q ps ih =>
    obtain ⟨⟨htext, -⟩, hps⟩ := List.forall_mem_cons.1 hps
    obtain ⟨d, r, hd⟩ := List.exists_cons_of_ne_nil (chars_of_isPathText htext).1
    have hne : q.text ++ printed ps ≠ [] := by
      simp [(chars_of_isPathText (hps q List.mem_cons_self).1).1]
    obtain ⟨e, he⟩ := Option.ne_none_iff_exists'.1 fun hnone => hne (List.getLast?_eq_none_iff.1 hnone)
    constructor
    · rw [hd]
      rintro c ⟨⟩
      exact ((chars_of_isPathText htext).2 d (by rw [hd]; exact List.mem_cons_self)).1
    · intro c hc
      rw [printed_cons, List.getLast?_append, List.getLast?_append, he] at hc
      exact (ih hps).2 c (by simpa [he] using hc)

end Spaced

/-! ## Arguments -/

namespace Spaced

variable {p q : Spaced}

/-- The brackets that are no parentheses. -/
theorem exists_bracket {sign : String} (h : closingBracket? p.lexeme.text = some sign) (hne : p.lexeme.text ≠ "(") :
    ∃ c, p.text = [c] ∧ (c = '[' ∨ c = '{') := by
  rw [text]
  generalize p.lexeme.text = s at h hne
  unfold closingBracket? at h
  split at h
  · exact absurd rfl hne
  · exact ⟨'[', rfl, .inl rfl⟩
  · exact ⟨'{', rfl, .inr rfl⟩
  · exact absurd h (by simp)

/-- **Trimming takes away white space**, and no comment. -/
theorem IsSpaced.trim_eq_iff (hp : p.IsSpaced) (hq : q.IsSpaced) (cs : List Char) :
    trim (p.gap ++ cs ++ q.gap) = trim cs ↔ p.comments = [] ∧ q.comments = [] := by
  refine ⟨fun h => ?_, fun h => trim_between (hp.blank h.1) cs (hq.blank h.2)⟩
  have hlength := congrArg (fun r => (squeeze r).length) h
  simp only [squeeze_trim, squeeze_append, List.length_append] at hlength
  exact ⟨hp.comments_eq_nil (List.length_eq_zero_iff.1 (by omega)),
    hq.comments_eq_nil (List.length_eq_zero_iff.1 (by omega))⟩

end Spaced

theorem arguments?_value (cs : List Char) :
    arguments? (trimEnd ('=' :: cs)) = some (some (String.ofList (trim cs))) := by
  rw [trimEnd_cons (by decide), ← trim_trimEnd cs]
  rfl

theorem dropLast?_eq_some {c : Char} {cs r : List Char} (h : dropLast? c cs = some r) : cs = r ++ [c] := by
  unfold dropLast? at h
  split at h
  · next hlast =>
    obtain rfl := Option.some.inj h
    exact (List.dropLast_append_getLast? c hlast).symm
  · exact absurd h (by simp)

/-- The arguments in parentheses, unless a comment stands behind them. -/
theorem arguments?_group {q : Spaced} (hq : q.IsSpaced) (cs : List Char) :
    arguments? (trimEnd ('(' :: (cs ++ ')' :: q.gap))) = some (some (String.ofList (trim cs))) ↔ q.comments = [] := by
  have hread : arguments? (trimEnd ('(' :: (cs ++ ')' :: q.gap))) =
      (dropLast? ')' (trimEnd (cs ++ ')' :: q.gap))).map fun a => some (String.ofList (trim a)) := by
    have hgroup : ∀ r, arguments? ('(' :: r) = (dropLast? ')' (trimEnd r)).map fun a => some (String.ofList (trim a)) :=
      fun _ => rfl
    rw [trimEnd_cons (by decide), hgroup, trimEnd_trimEnd]
  rw [hread]
  constructor
  · intro h
    obtain ⟨a, ha, htrim⟩ := Option.map_eq_some_iff.1 h
    -- what is read and what stands there hold the same characters, but for the comments
    have hsame := congrArg List.length (congrArg squeeze (String.ofList_injective (Option.some.inj htrim)))
    have hlength := congrArg List.length (congrArg squeeze (dropLast?_eq_some ha))
    rw [squeeze_trim, squeeze_trim] at hsame
    simp only [squeeze_trimEnd, squeeze_append, squeeze_cons (show isBlank ')' = false by decide),
      List.length_append, List.length_cons] at hlength
    have hlast : (squeeze []).length = 0 := rfl
    exact hq.comments_eq_nil (List.length_eq_zero_iff.1 (by omega))
  · intro hnone
    have hsplit : cs ++ ')' :: q.gap = (cs ++ [')']) ++ q.gap := by simp
    rw [hsplit, trimEnd_append_blanks _ (hq.blank hnone), trimEnd_concat (by decide)]
    simp [dropLast?]

namespace AttributeLayout

variable {l : AttributeLayout}

/-- **What stands behind the path**: white space and comments, and the text that the arguments are read from. -/
structure GoesOn (l : AttributeLayout) (p : Spaced) (cs : List Char) : Prop where
  content : l.content = Spaced.printed l.path ++ (p.gap ++ cs)
  spaced : p.IsSpaced
  ends : ∀ c ∈ cs.head?, inPath c = false
  plain : p.comments = [] ∧ arguments? (trimEnd cs) = some l.meaning.args ↔
    l.arguments.IsPlain ∧ l.closing.comments = []

theorem exists_goesOn (h : l.IsGrammatical) (hstandard : l.arguments.IsStandard) : ∃ p cs, l.GoesOn p cs := by
  have hclosing := h.closing.2
  have harguments := h.arguments
  cases hargs : l.arguments with
  | none =>
    refine ⟨l.closing, [], by simp [content, hargs, ArgumentLayout.lexemes], hclosing, by simp, ?_⟩
    simp [meaning, hargs, ArgumentLayout.text?, ArgumentLayout.IsPlain, arguments?]
  | value sign first rest =>
    rw [hargs] at harguments
    obtain ⟨hsign, hspaced, hfirst⟩ := harguments
    have hsign : sign.text = ['='] := congrArg String.toList hsign
    refine ⟨sign, '=' :: (first.gap ++ (first.text ++ print rest) ++ l.closing.gap), ?_, hspaced, by simp [inPath], ?_⟩
    · simp [content, hargs, ArgumentLayout.lexemes, hsign]
    · have hmeaning : l.meaning.args = some (String.ofList (trim (first.text ++ print rest))) := by
        simp [meaning, hargs, ArgumentLayout.text?]
      rw [hmeaning, hargs, arguments?_value, Option.some_inj, Option.some_inj, String.ofList_inj,
        hfirst.trim_eq_iff hclosing, ArgumentLayout.IsPlain, and_assoc]
  | group opening inside closing =>
    rw [hargs] at harguments hstandard
    have hopening : opening.text = ['('] := congrArg String.toList hstandard
    obtain ⟨hsign, hspaced⟩ := harguments
    have hclose : closing.text.toList = [')'] := by
      rw [show opening.lexeme.text = "(" from hstandard] at hsign
      exact congrArg String.toList (Option.some.inj hsign).symm
    refine ⟨opening, '(' :: ((print inside ++ closing.space) ++ ')' :: l.closing.gap), ?_, hspaced, by simp [inPath], ?_⟩
    · simp [content, hargs, ArgumentLayout.lexemes, hopening, hclose]
    · have hmeaning : l.meaning.args = some (String.ofList (trim (print inside ++ closing.space))) := by
        simp [meaning, hargs, ArgumentLayout.text?]
      have hplain : (ArgumentLayout.group opening inside closing).IsPlain ↔ opening.comments = [] :=
        ⟨And.left, fun hnone => ⟨hnone, .inl hstandard⟩⟩
      rw [hmeaning, hargs, arguments?_group hclosing, hplain]

/-! ## Plain layouts are read -/

/-- Where the path has been read, no comment stands in it or behind it. -/
theorem GoesOn.comments_eq_nil {p : Spaced} {cs : List Char} (hgoes : l.GoesOn p cs) (h : l.IsGrammatical)
    (hread : ofInside? (trim l.content) = some l.meaning) :
    (∀ q ∈ l.path, q.comments = []) ∧ p.comments = [] := by
  obtain ⟨-, hname, -⟩ := ofInside?_eq_some_iff.1 hread
  have hname := congrArg squeeze hname
  rw [squeeze_trim, squeeze_takeWhile fun _ => inPath_of_isBlank, squeeze_trim, hgoes.content] at hname
  have hslash : '/' ∉ squeeze (Spaced.texts l.path) := by
    intro hmem
    obtain ⟨q, hq, hmem⟩ := List.mem_flatMap.1 (List.mem_filter.1 hmem).1
    exact ((Spaced.chars_of_isPathText (h.path q hq).1).2 _ hmem).2.2 rfl
  obtain ⟨hpath, hrest⟩ := Spaced.comments_eq_nil_of_path h.path (hname ▸ hslash)
  exact ⟨hpath, (hgoes.spaced.comments_eq_nil_of_path hrest).1⟩

/-- Without comments it is read if no white space stands inside the path. -/
theorem GoesOn.ofInside?_iff {p : Spaced} {cs : List Char} (hgoes : l.GoesOn p cs) (h : l.IsGrammatical)
    (hpath : ∀ q ∈ l.path, q.comments = []) (hnone : p.comments = []) :
    ofInside? (trim l.content) = some l.meaning ↔
      (∀ q ∈ l.path.tail, q.gap = []) ∧ arguments? (trimEnd cs) = some l.meaning.args := by
  obtain ⟨q, qs, hcons⟩ := List.exists_cons_of_ne_nil h.path_ne_nil
  have hall := h.path
  rw [hcons] at hall hpath
  obtain ⟨⟨htext, hspaced⟩, -⟩ := List.forall_mem_cons.1 hall
  obtain ⟨hne, hchars⟩ := Spaced.chars_of_isPathText htext
  have hprinted : Spaced.printed l.path = q.gap ++ (q.text ++ Spaced.printed qs) := by rw [hcons, Spaced.printed_cons]
  have hin : ∀ c ∈ q.text ++ Spaced.printed qs, inPath c = true := fun c hc =>
    Spaced.inPath_of_printed hall hpath c (by rw [Spaced.printed_cons]; exact List.mem_append_right _ hc)
  obtain ⟨hfirst, hlast⟩ := Spaced.ends_path hall
  rw [hgoes.content, hprinted, List.append_assoc]
  refine (ofInside?_trim (hspaced.blank (hpath q List.mem_cons_self)) (by simp [hne]) hin hfirst hlast
    (hgoes.spaced.blank hnone) hgoes.ends).trans (and_comm.trans (and_congr_left' ?_))
  rw [hcons, List.tail_cons, Spaced.texts_cons, List.append_cancel_left_eq]
  exact ⟨Spaced.gap_eq_nil_of_printed, Spaced.printed_of_gap⟩

/-- **The plain layouts are those that are read** as their tokens say. -/
theorem ofText?_eq_meaning_iff (h : l.IsGrammatical) (hstandard : l.arguments.IsStandard) :
    Attribute.ofText? l.text = some l.meaning ↔ l.IsPlain := by
  rw [ofText?_eq]
  by_cases hopens : l.OpensPlain
  · obtain ⟨p, cs, hgoes⟩ := exists_goesOn h hstandard
    rw [inside?_of_opensPlain h hopens, Option.bind_some]
    constructor
    · intro hread
      obtain ⟨hpath, hnone⟩ := hgoes.comments_eq_nil h hread
      obtain ⟨htail, hargs⟩ := (hgoes.ofInside?_iff h hpath hnone).1 hread
      obtain ⟨harguments, hclosing⟩ := hgoes.plain.1 ⟨hnone, hargs⟩
      exact ⟨hopens, fun q hq => hpath q (List.mem_of_mem_head? hq), htail, harguments, hclosing⟩
    · rintro ⟨-, hfirst, htail, harguments, hclosing⟩
      obtain ⟨hnone, hargs⟩ := hgoes.plain.2 ⟨harguments, hclosing⟩
      refine (hgoes.ofInside?_iff h (fun q hq => ?_) hnone).2 ⟨htail, hargs⟩
      obtain ⟨r, rs, hcons⟩ := List.exists_cons_of_ne_nil h.path_ne_nil
      rw [hcons] at hq hfirst htail
      rcases List.mem_cons.1 hq with rfl | hq
      · exact hfirst q rfl
      · exact (h.path q (by rw [hcons]; exact List.mem_cons_of_mem _ hq)).2.comments_eq_nil (by rw [htail q hq]; rfl)
  · rw [inside?_of_not_opensPlain h hopens]
    exact ⟨fun hnone => absurd hnone (by simp), fun hplain => absurd hplain.opens hopens⟩

/-- **The tight layout is read as its tokens say.** -/
theorem ofText?_tight (h : l.IsGrammatical) (hstandard : l.arguments.IsStandard) :
    Attribute.ofText? l.tight.text = some l.meaning := by
  rw [← meaning_tight]
  exact (ofText?_eq_meaning_iff h.tight hstandard.tight).2 l.isPlain_tight

/-- What stands between the brackets of a plain layout with other arguments. -/
theorem trim_content_of_plain (h : l.IsGrammatical) (hplain : l.IsPlain) (hstandard : ¬ l.arguments.IsStandard) :
    trim l.content = trim l.tight.content := by
  have harguments := hplain.arguments
  cases hargs : l.arguments with
  | none => rw [hargs] at hstandard; exact absurd trivial hstandard
  | value sign first rest => rw [hargs] at hstandard; exact absurd trivial hstandard
  | group opening inside closing =>
    rw [hargs] at harguments hstandard
    have hgap : opening.gap = [] := harguments.2.resolve_left hstandard
    obtain ⟨q, qs, hcons⟩ := List.exists_cons_of_ne_nil h.path_ne_nil
    have hspaced : q.IsSpaced := (h.path q (by rw [hcons]; exact List.mem_cons_self)).2
    have hpath : Spaced.printed l.path = q.gap ++ Spaced.texts l.path := by
      rw [hcons, Spaced.printed_cons, Spaced.texts_cons, Spaced.printed_of_gap]
      have htail := hplain.path
      rwa [hcons] at htail
    have hprint : print (l.arguments.tight).lexemes = print l.arguments.lexemes := by
      simp [hargs, ArgumentLayout.tight, ArgumentLayout.lexemes, hgap]
    have htight : l.tight.content = Spaced.texts l.path ++ print l.arguments.lexemes := by
      rw [content, ← hprint, show l.tight.path = l.path.map Spaced.tight from rfl, Spaced.printed_tight]
      exact List.append_nil _
    have hbetween := trim_between (hspaced.blank (hplain.first q (by rw [hcons]; rfl)))
      (Spaced.texts l.path ++ print l.arguments.lexemes) (h.closing.2.blank hplain.closing)
    rw [htight, ← hbetween, content, hpath, List.append_assoc q.gap]

/-- **A plain layout is read like the tight one.** -/
theorem ofText?_plain (h : l.IsGrammatical) (hplain : l.IsPlain) :
    Attribute.ofText? l.text = Attribute.ofText? l.tight.text := by
  by_cases hstandard : l.arguments.IsStandard
  · rw [ofText?_tight h hstandard, (ofText?_eq_meaning_iff h hstandard).2 hplain]
  · rw [ofText?_eq, ofText?_eq, inside?_of_opensPlain h hplain.opens,
      inside?_of_opensPlain h.tight l.isPlain_tight.opens, trim_content_of_plain h hplain hstandard]

/-- **Other brackets are read as part of the path.** -/
theorem exists_bracket_of_read (h : l.IsGrammatical) (hstandard : ¬ l.arguments.IsStandard) {a : Attribute}
    (hread : Attribute.ofText? l.tight.text = some a) : '[' ∈ a.name.toList ∨ '{' ∈ a.name.toList := by
  have harguments := h.arguments
  cases hargs : l.arguments with
  | none => rw [hargs] at hstandard; exact absurd trivial hstandard
  | value sign first rest => rw [hargs] at hstandard; exact absurd trivial hstandard
  | group opening inside closing =>
    rw [hargs] at harguments hstandard
    obtain ⟨c, htext, hc⟩ := Spaced.exists_bracket harguments.1 hstandard
    have hcontent : l.tight.content = Spaced.texts l.path ++ c :: (print inside ++ closing.space ++ closing.text.toList) := by
      rw [content, show l.tight.path = l.path.map Spaced.tight from rfl, Spaced.printed_tight,
        show l.tight.arguments = l.arguments.tight from rfl, hargs]
      simp [ArgumentLayout.tight, ArgumentLayout.lexemes, htext, tight]
    have hname : c ∈ squeeze a.name.toList := by
      rw [ofText?_eq, inside?_of_opensPlain h.tight l.isPlain_tight.opens, Option.bind_some,
        show a = ⟨String.ofList a.name.toList, a.args⟩ by rw [String.ofList_toList]] at hread
      obtain ⟨-, hname, -⟩ := ofInside?_eq_some_iff.1 hread
      rw [← hname, squeeze_trim, squeeze_takeWhile fun _ => inPath_of_isBlank, squeeze_trim, hcontent, squeeze_append,
        List.takeWhile_append_of_pos]
      · have hplain : isBlank c = false ∧ inPath c = true := by rcases hc with rfl | rfl <;> decide
        rw [squeeze_cons hplain.1, List.takeWhile_cons_of_pos hplain.2]
        exact List.mem_append_right _ List.mem_cons_self
      · intro d hd
        obtain ⟨q, hq, hmem⟩ := List.mem_flatMap.1 (List.mem_filter.1 hd).1
        exact ((Spaced.chars_of_isPathText (h.path q hq).1).2 d hmem).2.1
    have hmem := (List.mem_filter.1 hname).1
    rcases hc with rfl | rfl
    · exact .inl hmem
    · exact .inr hmem

end AttributeLayout

end Source

end ModelPool
