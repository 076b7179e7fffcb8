import ModelPool.Text.Identifier

/-!
# Source/Token — the tokens of a module source, and where they stand

A token keeps its own text and the white space before it, so a run of tokens prints back to the text
it was read from.  Comments are tokens: documentation is read from them.  A token that is a word is
spelled like one.

* `Token.print_cons` — a run prints token by token.
-/

namespace ModelPool.Source

open ModelPool.Text

/-! ## Positions -/

/-- A place in a source: the line and the column, both from 1; columns count bytes. -/
structure Position where
  line : Nat
  column : Nat
deriving DecidableEq

/-- The first place of a source. -/
def Position.origin : Position := ⟨1, 1⟩

/-- The place behind one character: only a line feed ends a line. -/
def Position.next (p : Position) (c : Char) : Position :=
  if c = '\n' then ⟨p.line + 1, 1⟩ else ⟨p.line, p.column + c.utf8Size⟩

/-- The place behind a text. -/
def Position.after (p : Position) (cs : List Char) : Position := cs.foldl Position.next p

/-! ## Tokens -/

/-- What a token is.  A `variable` is a word behind a dollar sign, and a `quote` is a lone apostrophe,
which only the arguments of a macro may hold; a `stray` text belongs to no token at all, such as an
unclosed string or comment. -/
inductive TokenKind where
  | word
  | variable
  | lifetime
  | number
  | text
  | character
  | punctuation
  | comment
  | shebang
  | quote
  | stray
deriving DecidableEq

/-- The sign that opens a body. -/
def openBrace : String := "\x7b"

/-- The sign that closes a body. -/
def closeBrace : String := "\x7d"

/-- A character that may begin a word. -/
def isWordStart (c : Char) : Bool := c == '_' || isIdentifierStart c

/-- **The text is a word**, the mark of a raw identifier included. -/
def isWord : List Char → Bool
  | 'r' :: '#' :: c :: r => isWordStart c && r.all isIdentifierTail
  | c :: r => isWordStart c && r.all isIdentifierTail
  | [] => false

/-- A token with the white space before it. -/
structure Token where
  kind : TokenKind
  space : List Char
  text : String
  start : Position
  isWord : kind = .word → isWord text.toList = true

namespace Token

/-- The token holds just this text. -/
def is (t : Token) (s : String) : Bool := t.text == s

/-- The token is a comment. -/
def isComment (t : Token) : Bool := t.kind == .comment

/-- The place right behind the token. -/
def stop (t : Token) : Position := t.start.after t.text.toList

/-- The text of a run of tokens, the white space before each token included. -/
def print : List Token → List Char
  | [] => []
  | t :: r => t.space ++ t.text.toList ++ print r

/-- **A run prints token by token.** -/
theorem print_cons (t : Token) (r : List Token) :
    print (t :: r) = t.space ++ t.text.toList ++ print r := rfl

/-- Two runs print one after the other. -/
theorem print_append (r s : List Token) : print (r ++ s) = print r ++ print s := by
  induction r with
  | nil => rfl
  | cons t r ih => simp [print_cons, ih]

/-- The text from the first token of a run to its last one, without the white space before it. -/
def spanned : List Token → List Char
  | [] => []
  | t :: r => t.text.toList ++ print r

end Token

end ModelPool.Source
