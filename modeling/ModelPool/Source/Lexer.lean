import ModelPool.Source.Token

/-!
# Source/Lexer — cutting a source into tokens

A lexeme is found by its length: `lexeme` looks at the characters ahead and says what stands there
and how many characters it takes.  The lexer takes so many characters, drops them, and goes on with
the rest, so it loses nothing, and each step makes the rest shorter.

A byte order mark before everything counts as white space.  Block comments nest.  A line comment
ends before its line feed, but a documentation comment takes the line feed with it.

* `spelled_lexeme` — what the lexer calls a word is spelled like one.
-/

namespace ModelPool.Source

open ModelPool.Text

/-! ## Lengths of lexemes -/

/-- White space between tokens. -/
def isSpace (c : Char) : Bool :=
  c == ' ' || c == '\t' || c == '\n' || c == '\r' || c == '\x0b' || c == '\x0c'

/-- The number of characters a text begins with that lie in a class. -/
def runLength (p : Char → Bool) (cs : List Char) : Nat := (cs.takeWhile p).length

/-- The length of a block comment's rest up to its end, `depth` comments being open. -/
def blockCommentLength (depth : Nat) : List Char → Option Nat
  | [] => none
  | '*' :: '/' :: r =>
    match depth with
    | 0 | 1 => some 2
    | d + 2 => (blockCommentLength (d + 1) r).map (· + 2)
  | '/' :: '*' :: r => (blockCommentLength (depth + 1) r).map (· + 2)
  | _ :: r => (blockCommentLength depth r).map (· + 1)

/-- The length of a string's rest up to its closing quote, which it includes. -/
def stringLength : List Char → Option Nat
  | [] => none
  | '"' :: _ => some 1
  | '\\' :: _ :: r => (stringLength r).map (· + 2)
  | _ :: r => (stringLength r).map (· + 1)

/-- The length of a raw string's rest up to the quote and hashes that close it. -/
def rawStringLength (hashes : Nat) : List Char → Option Nat
  | [] => none
  | '"' :: r =>
    if hashes ≤ runLength (· == '#') r then some (hashes + 1)
    else (rawStringLength hashes r).map (· + 1)
  | _ :: r => (rawStringLength hashes r).map (· + 1)

/-- The length of a raw string from its first hash or quote on, if one begins here. -/
def rawStringStart (cs : List Char) : Option (Option Nat) :=
  let hashes := runLength (· == '#') cs
  match cs.drop hashes with
  | '"' :: r => some ((rawStringLength hashes r).map (· + (hashes + 1)))
  | _ => none

/-- A hexadecimal digit. -/
def isHexDigit (c : Char) : Bool :=
  c.isDigit || 'a' ≤ c && c ≤ 'f' || 'A' ≤ c && c ≤ 'F'

/-- The length of an escape's rest with the closing quote behind it, the backslash being read; `none`
where no escape and quote stand. -/
def escapeLength : List Char → Option Nat
  | 'x' :: a :: b :: '\'' :: _ => if [a, b].all isHexDigit then some 4 else none
  | 'u' :: '{' :: r =>
    let digits := runLength isHexDigit r
    match r.drop digits with
    | '}' :: '\'' :: _ => if digits = 0 then none else some (digits + 4)
    | _ => none
  | 'u' :: a :: b :: c :: d :: '\'' :: _ => if [a, b, c, d].all isHexDigit then some 6 else none
  | 'x' :: _ => none
  | 'u' :: _ => none
  | _ :: '\'' :: _ => some 2
  | _ => none

/-- The length of a character literal's rest, its opening quote being read; `none` where no literal
stands. -/
def characterLength : List Char → Option Nat
  | '\'' :: _ => some 1
  | '\\' :: r => (escapeLength r).map (· + 1)
  | _ :: '\'' :: _ => some 2
  | _ => none

/-- A digit or the underscore that groups digits. -/
def isDigitOrGroup (c : Char) : Bool := c.isDigit || c == '_'

/-- The length of a decimal number's fraction, its point included.  Two points are a range and a
point before a word is a field, so neither begins a fraction. -/
def fractionLength : List Char → Nat
  | '.' :: c :: r =>
    if c == '.' || isWordStart c then 0 else runLength isDigitOrGroup (c :: r) + 1
  | ['.'] => 1
  | _ => 0

/-- The length of an exponent. -/
def exponentLength : List Char → Nat
  | e :: s :: r =>
    if e == 'e' || e == 'E' then
      if s == '+' || s == '-' then
        match runLength isDigitOrGroup r with
        | 0 => 0
        | n => n + 2
      else
        match runLength isDigitOrGroup (s :: r) with
        | 0 => 0
        | n => n + 1
    else 0
  | _ => 0

/-- The length of a number that begins with this digit: digits of a marked base, or a whole part, a
fraction and an exponent; then whatever letters follow as its suffix. -/
def numberLength (c : Char) (r : List Char) : Nat :=
  let suffix (n : Nat) : Nat := n + runLength isIdentifierTail ((c :: r).drop n)
  match c, r with
  | '0', 'x' :: _ | '0', 'b' :: _ | '0', 'o' :: _ => suffix 1
  | _, _ =>
    let whole := runLength isDigitOrGroup r + 1
    let fraction := fractionLength ((c :: r).drop whole)
    let exponent := exponentLength ((c :: r).drop (whole + fraction))
    suffix (whole + fraction + exponent)

/-- The punctuation of more than one character that is read as one token. -/
def joinedPunctuation : List (List Char) :=
  ["..=".toList, "...".toList, "..".toList, "::".toList, "->".toList, "=>".toList]

/-- The punctuation of one character. -/
def isPunctuation (c : Char) : Bool :=
  "+-*/%^!&|=<>@.,;:#?$(){}[]".toList.contains c

/-- Documentation comments take the line feed that ends them. -/
def isDocumentationLine : List Char → Bool
  | '/' :: '/' :: _ => false
  | '/' :: _ => true
  | '!' :: _ => true
  | _ => false

/-- A literal, or a text that opens one and never closes it. -/
def closed (kind : TokenKind) (opening : Nat) (rest : List Char) : Option Nat → TokenKind × Nat
  | some n => (kind, opening + n)
  | none => (.stray, opening + rest.length)

/-- A word, or a literal that begins with the letters of a word. -/
def wordLexeme (c : Char) (r : List Char) : TokenKind × Nat :=
  let word : TokenKind × Nat := (.word, runLength isIdentifierTail r + 1)
  let raw (letters : Nat) (rest : List Char) : TokenKind × Nat :=
    match rawStringStart rest with
    | some n => closed .text letters rest n
    | none => word
  match c, r with
  | 'b', '\'' :: q =>
    match characterLength q with
    | some n => (.character, n + 2)
    | none => word
  | 'b', '"' :: q | 'c', '"' :: q => closed .text 2 q (stringLength q)
  | 'b', 'r' :: q | 'c', 'r' :: q => raw 2 q
  | 'r', '#' :: d :: q =>
    if isWordStart d then (.word, runLength isIdentifierTail q + 3) else raw 1 ('#' :: d :: q)
  | 'r', q => raw 1 q
  | _, _ => word

/-- **The lexeme ahead** — what stands at the character `c`, and how many characters it takes. -/
def lexeme (c : Char) (r : List Char) : TokenKind × Nat :=
  match c, r with
  | '/', '/' :: q =>
    let n := runLength (· != '\n') q
    if isDocumentationLine q && n < q.length then (.comment, n + 3) else (.comment, n + 2)
  | '/', '*' :: q => closed .comment 2 q (blockCommentLength 1 q)
  | '"', _ => closed .text 1 r (stringLength r)
  | '\'', _ =>
    match characterLength r, r with
    | some n, _ => (.character, n + 1)
    | none, d :: q =>
      if isWordStart d then (.lifetime, runLength isIdentifierTail q + 2) else (.quote, 1)
    | none, [] => (.quote, 1)
  | '$', d :: q =>
    if d.isAlpha || d == '_' then (.variable, runLength isIdentifierTail q + 2) else (.punctuation, 1)
  | _, _ =>
    if isWordStart c then wordLexeme c r
    else if c.isDigit then (.number, numberLength c r)
    else
      match joinedPunctuation.find? (·.isPrefixOf (c :: r)) with
      | some p => (.punctuation, p.length)
      | none => if isPunctuation c then (.punctuation, 1) else (.stray, 1)

/-! ## Words -/

theorem take_runLength (p : Char → Bool) (r : List Char) :
    r.take (runLength p r) = r.takeWhile p :=
  (List.prefix_iff_eq_take.1 (List.takeWhile_prefix p)).symm

/-- A word begins with its first character and goes on as far as it can. -/
theorem isWord_run {c : Char} (hc : isWordStart c = true) (r : List Char) :
    isWord (c :: r.take (runLength isIdentifierTail r)) = true := by
  have hall : (r.takeWhile isIdentifierTail).all isIdentifierTail = true := List.all_takeWhile
  rw [take_runLength]
  unfold isWord
  split
  · next d q heq =>
    simp only [List.cons.injEq] at heq
    rw [heq.2] at hall
    exact absurd hall (by simp [isIdentifierTail])
  · next d q _ heq =>
    obtain ⟨rfl, rfl⟩ := List.cons.inj heq
    simp [hc, hall]
  · next heq => exact absurd heq (by simp)

/-- **The lexeme ahead is no word, or it is spelled like one.** -/
def Spelled (c : Char) (r : List Char) (l : TokenKind × Nat) : Prop :=
  l.1 = .word → isWord (c :: r.take (l.2 - 1)) = true

section Spelled

variable {c : Char} {r : List Char}

theorem spelled_of_ne {kind : TokenKind} (h : kind ≠ .word) (n : Nat) : Spelled c r (kind, n) :=
  fun hw => absurd hw h

/-- What closes or not is no word. -/
theorem spelled_closed {kind : TokenKind} (h : kind ≠ .word) (opening : Nat) (rest : List Char)
    (n : Option Nat) : Spelled c r (closed kind opening rest n) := by
  cases n with
  | none => exact spelled_of_ne (by decide) _
  | some n => exact spelled_of_ne h _

theorem spelled_run (hc : isWordStart c = true) :
    Spelled c r (.word, runLength isIdentifierTail r + 1) := fun _ => isWord_run hc r

theorem spelled_wordLexeme (hc : isWordStart c = true) : Spelled c r (wordLexeme c r) := by
  have hraw : ∀ letters rest, Spelled c r
      (match rawStringStart rest with
        | some n => closed .text letters rest n
        | none => (.word, runLength isIdentifierTail r + 1)) := by
    intro letters rest
    split
    · exact spelled_closed (by decide) _ _ _
    · exact spelled_run hc
  unfold wordLexeme
  split
  · split
    · exact spelled_of_ne (by decide) _
    · exact spelled_run hc
  · exact spelled_closed (by decide) _ _ _
  · exact spelled_closed (by decide) _ _ _
  · exact hraw _ _
  · exact hraw _ _
  · next d q =>
    split
    · next hd =>
      intro _
      have hall : (q.takeWhile isIdentifierTail).all isIdentifierTail = true := List.all_takeWhile
      show (isWordStart d && (q.take (runLength isIdentifierTail q)).all isIdentifierTail) = true
      rw [take_runLength, hd, hall]
      rfl
    · exact hraw _ _
  · exact hraw _ _
  · exact spelled_run hc

/-- **A lexeme that is a word is spelled like one.** -/
theorem spelled_lexeme (c : Char) (r : List Char) : Spelled c r (lexeme c r) := by
  unfold lexeme
  split
  · dsimp only
    split <;> exact spelled_of_ne (by decide) _
  · exact spelled_closed (by decide) _ _ _
  · exact spelled_closed (by decide) _ _ _
  · split
    · exact spelled_of_ne (by decide) _
    · split <;> exact spelled_of_ne (by decide) _
    · exact spelled_of_ne (by decide) _
  · split <;> exact spelled_of_ne (by decide) _
  · split
    · next hc => exact spelled_wordLexeme hc
    · split
      · exact spelled_of_ne (by decide) _
      · split
        · exact spelled_of_ne (by decide) _
        · split <;> exact spelled_of_ne (by decide) _

end Spelled

/-- The length of a first line that names the interpreter of a script: it begins with the two signs
of an inner attribute, but the character right behind them is no bracket. -/
def shebangLength : List Char → Option Nat
  | '#' :: '!' :: r =>
    let n := runLength (· != '\n') r
    match r with
    | '[' :: _ => none
    | _ => if n < r.length then some (n + 3) else none
  | _ => none

/-! ## The lexer -/

/-- The tokens of a text, the first white space of which begins at `p`. -/
def tokensFrom (p : Position) (cs : List Char) : List Token :=
  match _h : cs.dropWhile isSpace with
  | [] => []
  | c :: r =>
    let space := cs.takeWhile isSpace
    let start := p.after space
    let l := lexeme c r
    let text := c :: r.take (l.2 - 1)
    have hword : l.1 = .word → isWord (String.ofList text).toList = true :=
      String.toList_ofList ▸ spelled_lexeme c r
    ⟨l.1, space, String.ofList text, start, hword⟩
      :: tokensFrom (start.after text) (r.drop (l.2 - 1))
termination_by cs.length
decreasing_by
  have hle : (c :: r).length ≤ cs.length := _h ▸ (List.dropWhile_sublist (p := isSpace)).length_le
  simp only [List.length_cons, List.length_drop] at hle ⊢
  omega

/-- The byte order mark that a source may begin with. -/
def byteOrderMark : Char := '\uFEFF'

/-- A source as tokens. -/
def tokens (cs : List Char) : List Token :=
  match cs with
  | [] => []
  | c :: r =>
    if c = byteOrderMark then
      match tokensFrom (Position.origin.next c) r with
      | [] => []
      | t :: ts => { t with space := c :: t.space } :: ts
    else
      match shebangLength cs with
      | some n =>
        let line := cs.take n
        ⟨.shebang, [], String.ofList line, .origin, nofun⟩
          :: tokensFrom (Position.origin.after line) (cs.drop n)
      | none => tokensFrom .origin cs

end ModelPool.Source
