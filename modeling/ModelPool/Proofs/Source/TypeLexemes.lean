import ModelPool.Proofs.Source.Lengths
import ModelPool.Proofs.Types.Traversal
import ModelPool.Source.TypeGrammar

/-!
# Proofs/Source/TypeLexemes — the lexemes of a printed type

The text of a type is put together from signs and words, and `typeLexemes` names them one by one.  A type
is *readable* if the grammar reads its parts as what they are: its paths are words that may stand together,
the lengths of its arrays are texts of their own, and nothing in it is kept as text.  It is *structured* if
its paths are made of plain names and its lengths are numbers.

* `isReadable_of_isStructured` — a structured type is readable.
* `print_typeLexemes` — the lexemes of a readable type are its text.
* `legible_typeLexemes` — and the lexer cuts them apart again.
-/

namespace ModelPool

open Text

/-! ## Structured types -/

namespace Source

/-- Words that mean something of their own where a type may begin. -/
def openingWords : List String :=
  functionModifiers ++ pathKeywords ++ reservedWords ++
    ["fn", "extern", "dyn", "impl", "for", "mut", "true", "false"]

/-- A word that a path may begin with. -/
def isPathHead (s : String) : Bool := isWord s.toList && !openingWords.contains s

/-- A word that a path may go on with. -/
def isPathTail (s : String) : Bool := isWord s.toList && s != "super"

/-- **A path made of names.** -/
def isNamePath : List String → Bool
  | [] => false
  | h :: r => isPathHead h && r.all isPathTail

/-- What such a path is, as the grammar sees it. -/
def nameForm : List String → PathForm
  | [h] => if primitiveTypes.contains h then .primitive else .lone
  | _ => .joined

/-! ### Paths of words -/

/-- Words that are no names where a type begins. -/
def typeWords : List String :=
  ["async", "const", "unsafe", "fn", "extern", "dyn", "impl", "for", "mut", "true", "false"]

/-- A word that a path of words may begin with. -/
def isHead (s : String) : Bool := isWord s.toList && !typeWords.contains s

/-- **A path made of words.** -/
def isWordPath : List String → Bool
  | [] => false
  | h :: r => isHead h && r.all fun s => isWord s.toList

/-- What a path is behind its first word. -/
def headForm (s : String) : PathForm :=
  if pathKeywords.contains s then .keyword
  else if primitiveTypes.contains s then .primitive
  else if reservedWords.contains s then .reserved
  else .lone

/-- What a path is behind a further word. -/
def segmentForm (s : String) : PathForm := if s == "super" then .keyword else .joined

/-- **What a path of words is**, as the grammar sees it. -/
def pathForm : List String → PathForm
  | [] => .opened
  | h :: r => r.foldl (fun _ s => segmentForm s) (headForm h)

/-- A lifetime's name. -/
def isLifetimeName (s : String) : Bool :=
  match s.toList with
  | [] => false
  | c :: r => isWordStart c && r.all isIdentifierTail

/-- A length that is a number in digits. -/
def isDigits (s : String) : Bool :=
  match s.toList with
  | [] => false
  | c :: r => c.isDigit && r.all Char.isDigit

end Source

open Source

namespace TypeExpr

/-- The type may bound a trait object. -/
def isBound : TypeExpr → Bool
  | .path segments _ => (nameForm segments).isPlain
  | .tuple (_ :: _) => true
  | _ => false

mutual

/-- **A structured type** — nothing in it is kept as text. -/
def isStructured : TypeExpr → Bool
  | .path segments args =>
    isNamePath segments && (args.isEmpty || (nameForm segments).isPlain) && allStructured args
  | .reference lifetime _ inner => lifetime.all isLifetimeName && isStructured inner
  | .slice element => isStructured element
  | .array element length => isStructured element && isDigits length
  | .tuple elements => allStructured elements
  | .traitObject keyword bound =>
    (keyword == "dyn" || keyword == "impl") && isBound bound && isStructured bound
  | .verbatim _ => false

/-- All of several types are structured. -/
def allStructured : List TypeExpr → Bool
  | [] => true
  | t :: r => isStructured t && allStructured r

end

theorem allStructured_iff {ts : List TypeExpr} :
    allStructured ts = true ↔ ∀ t ∈ ts, isStructured t = true := by
  induction ts with
  | nil => simp [allStructured]
  | cons t r ih => simp [allStructured, ih]

/-! ## Readable types -/

/-- The type may stand behind `dyn` or `impl`. -/
def isBoundable : TypeExpr → Bool
  | .path segments args => !args.isEmpty || (pathForm segments).isPlain
  | .tuple (_ :: _) => true
  | _ => false

mutual

/-- **A readable type** — the grammar reads its text as the type again. -/
def IsReadable : TypeExpr → Prop
  | .path segments args =>
    isWordPath segments = true ∧
      (if args.isEmpty then (pathForm segments).isComplete else (pathForm segments).takesArguments) = true ∧
      AllReadable args
  | .reference lifetime _ inner => lifetime.all isLifetimeName = true ∧ IsReadable inner
  | .slice element => IsReadable element
  | .array element length => IsReadable element ∧ IsLength length
  | .tuple elements => AllReadable elements
  | .traitObject keyword bound =>
    (keyword = "dyn" ∨ keyword = "impl") ∧ isBoundable bound = true ∧ IsReadable bound
  | .verbatim _ => False

/-- All of several types are readable. -/
def AllReadable : List TypeExpr → Prop
  | [] => True
  | t :: r => IsReadable t ∧ AllReadable r

end

theorem allReadable_iff {ts : List TypeExpr} : AllReadable ts ↔ ∀ t ∈ ts, IsReadable t := by
  induction ts with
  | nil => simp [AllReadable]
  | cons t r ih => simp [AllReadable, ih]

end TypeExpr

namespace Source

open Lexeme TypeExpr

/-! ## The lexemes of a type -/

namespace Lexeme

/-- A sign. -/
def sign (space : List Char) (c : Char) : Lexeme := ⟨.punctuation, space, String.singleton c⟩

/-- The sign that joins a path. -/
def colons : Lexeme := ⟨.punctuation, [], "::"⟩

/-- A word. -/
def ofName (space : List Char) (s : String) : Lexeme := ⟨.word, space, s⟩

/-- A lifetime. -/
def lifetime (space : List Char) (s : String) : Lexeme :=
  ⟨.lifetime, space, String.ofList ('\'' :: s.toList)⟩

/-- A number. -/
def number (space : List Char) (s : String) : Lexeme := ⟨.number, space, s⟩

@[simp] theorem text_sign (space : List Char) (c : Char) : (sign space c).text = String.singleton c :=
  rfl

@[simp] theorem text_colons : colons.text = "::" := rfl

@[simp] theorem text_ofName (space : List Char) (s : String) : (ofName space s).text = s := rfl

end Lexeme

/-- The segments of a path behind its first one. -/
def segmentLexemes : List String → List Lexeme
  | [] => []
  | s :: r => colons :: ofName [] s :: segmentLexemes r

/-- The lexemes of a path. -/
def pathLexemes (space : List Char) : List String → List Lexeme
  | [] => []
  | h :: r => ofName space h :: segmentLexemes r

/-- The marks between the sign of a reference and its type, and the blank behind them. -/
def markLexemes : Option String → Bool → List Lexeme × List Char
  | none, false => ([], [])
  | none, true => ([ofName [] "mut"], [' '])
  | some l, false => ([lifetime [] l], [' '])
  | some l, true => ([lifetime [] l, ofName [' '] "mut"], [' '])

mutual

/-- **The lexemes of a type** that stands behind a blank text. -/
def typeLexemes (space : List Char) : TypeExpr → List Lexeme
  | .path segments args =>
    pathLexemes space segments ++
      if args.isEmpty then [] else sign [] '<' :: (listLexemes args ++ [sign [] '>'])
  | .reference lifetime mutable inner =>
    sign space '&' :: ((markLexemes lifetime mutable).1 ++
      typeLexemes (markLexemes lifetime mutable).2 inner)
  | .slice element => sign space '[' :: (typeLexemes [] element ++ [sign [] ']'])
  | .array element length =>
    sign space '[' :: (typeLexemes [] element ++
      sign [] ';' :: (lengthLexemes length ++ [sign [] ']']))
  | .tuple elements =>
    sign space '(' :: (listLexemes elements ++
      ((if elements.length = 1 then [sign [] ','] else []) ++ [sign [] ')']))
  | .traitObject keyword bound => ofName space keyword :: typeLexemes [' '] bound
  | .verbatim _ => []

/-- The lexemes of types with commas between them. -/
def listLexemes : List TypeExpr → List Lexeme
  | [] => []
  | t :: r => typeLexemes [] t ++ furtherLexemes r

/-- The lexemes of types with a comma before each. -/
def furtherLexemes : List TypeExpr → List Lexeme
  | [] => []
  | t :: r => sign [] ',' :: (typeLexemes [' '] t ++ furtherLexemes r)

end

/-! ## Their print -/

theorem print_segmentLexemes (r : List String) :
    print (segmentLexemes r) = r.flatMap fun s => ':' :: ':' :: s.toList := by
  induction r with
  | nil => rfl
  | cons s r ih => simp [segmentLexemes, colons, ofName, ih]

theorem print_pathLexemes (space : List Char) {segments : List String} (h : segments ≠ []) :
    print (pathLexemes space segments) = space ++ (pathText segments).toList := by
  obtain ⟨first, r, rfl⟩ := List.exists_cons_of_ne_nil h
  simp [pathLexemes, ofName, print_segmentLexemes, toList_pathText_cons]

theorem print_markLexemes (lifetime : Option String) (mutable : Bool) :
    '&' :: (print (markLexemes lifetime mutable).1 ++ (markLexemes lifetime mutable).2) =
      (Ty.referenceMark lifetime mutable).toList := by
  cases lifetime <;> cases mutable <;>
    simp [markLexemes, Ty.referenceMark, ofName, Lexeme.lifetime]

theorem ne_nil_of_isWordPath {segments : List String} (h : isWordPath segments = true) :
    segments ≠ [] := by
  rintro rfl
  exact absurd h (by decide)

theorem toList_intercalate_cons (t : String) (r : List String) :
    (", ".intercalate (t :: r)).toList = t.toList ++ r.flatMap fun s => ',' :: ' ' :: s.toList := by
  induction r generalizing t with
  | nil => simp
  | cons s r ih =>
    rw [String.intercalate_cons_cons]
    simp [ih]

theorem print_furtherLexemes {ts : List TypeExpr}
    (h : ∀ t ∈ ts, print (typeLexemes [' '] t) = ' ' :: t.text.toList) :
    print (furtherLexemes ts) = (ts.map TypeExpr.text).flatMap fun s => ',' :: ' ' :: s.toList := by
  induction ts with
  | nil => simp [furtherLexemes]
  | cons t r ih =>
    obtain ⟨ht, hr⟩ := List.forall_mem_cons.1 h
    simp [furtherLexemes, sign, ht, ih hr]

theorem print_listLexemes {ts : List TypeExpr}
    (h : ∀ t ∈ ts, ∀ space, print (typeLexemes space t) = space ++ t.text.toList) :
    print (listLexemes ts) = (", ".intercalate (ts.map TypeExpr.text)).toList := by
  cases ts with
  | nil => simp [listLexemes]
  | cons t r =>
    obtain ⟨ht, hr⟩ := List.forall_mem_cons.1 h
    rw [List.map_cons, toList_intercalate_cons, listLexemes, print_append, ht [],
      print_furtherLexemes fun t ht => hr t ht [' '], List.nil_append]

theorem render_pathText : Ty.render pathText = TypeExpr.text := rfl

/-- **The lexemes of a readable type are its text.** -/
theorem print_typeLexemes {t : TypeExpr} (h : t.IsReadable) (space : List Char) :
    print (typeLexemes space t) = space ++ t.text.toList := by
  induction t using Ty.partsInduction generalizing space with
  | path segments args ih =>
    obtain ⟨hpath, -, hargs⟩ := h
    have hlist := print_listLexemes fun t ht space => ih t ht (allReadable_iff.1 hargs t ht) space
    rw [typeLexemes, print_append, print_pathLexemes space (ne_nil_of_isWordPath hpath),
      TypeExpr.text, Ty.render_path, Ty.bracketed, String.toList_append, List.append_assoc]
    cases args with
    | nil => simp
    | cons t r => simpa [sign, render_pathText] using hlist
  | reference lifetime mutable inner ih =>
    have hmark := print_markLexemes lifetime mutable
    simp [typeLexemes, sign, ih h.2, TypeExpr.text, Ty.render, ← hmark]
  | slice element ih =>
    rw [IsReadable] at h
    simp [typeLexemes, sign, ih h, TypeExpr.text, Ty.render]
  | array element length ih =>
    simp [typeLexemes, sign, ih h.1, h.2.print, TypeExpr.text, Ty.render]
  | tuple elements ih =>
    rw [IsReadable] at h
    have hlist := print_listLexemes fun t ht space => ih t ht (allReadable_iff.1 h t ht) space
    simp only [typeLexemes, sign, TypeExpr.text, Ty.render, Ty.renderAll_eq_map, Ty.parenthesized]
    split <;> simp_all [render_pathText]
  | traitObject keyword bound ih =>
    simp [typeLexemes, ofName, ih h.2.2, TypeExpr.text, Ty.render]
  | verbatim text => exact h.elim

/-! ## Their cut -/

/-- **No word goes on** into the text. -/
def EndsWord (rest : List Char) : Prop := ∀ c ∈ rest.head?, endsWord c = true

theorem endsWord_cons {c : Char} (h : endsWord c = true) (r : List Char) : EndsWord (c :: r) := by
  rintro _ ⟨⟩
  exact h

section Legible

variable {rest : List Char}

theorem before_sign {space : List Char} {c : Char} (hspace : space.all isSpace = true)
    (hc : c ∈ loneSigns) (rest : List Char) : Before (sign space c) rest :=
  before_loneSign hspace hc rest

theorem legible_segmentLexemes {r : List String} (h : ∀ s ∈ r, isWord s.toList = true)
    (hrest : EndsWord rest) : Legible (segmentLexemes r) rest := by
  induction r with
  | nil => exact trivial
  | cons s r ih =>
    obtain ⟨hs, hr⟩ := List.forall_mem_cons.1 h
    have hends : EndsWord (print (segmentLexemes r) ++ rest) := by
      cases r with
      | nil => exact hrest
      | cons d r => exact endsWord_cons (by decide) _
    exact ⟨before_colons rfl _, before_word rfl hs hends, ih hr⟩

theorem legible_pathLexemes {space : List Char} {segments : List String}
    (hspace : space.all isSpace = true) (h : ∀ s ∈ segments, isWord s.toList = true)
    (hrest : EndsWord rest) : Legible (pathLexemes space segments) rest := by
  cases segments with
  | nil => exact trivial
  | cons first r =>
    obtain ⟨hfirst, hr⟩ := List.forall_mem_cons.1 h
    have hends : EndsWord (print (segmentLexemes r) ++ rest) := by
      cases r with
      | nil => exact hrest
      | cons d r => exact endsWord_cons (by decide) _
    exact ⟨before_word hspace hfirst hends, legible_segmentLexemes hr hrest⟩

theorem isWord_of_isWordPath {segments : List String} (h : isWordPath segments = true) :
    ∀ s ∈ segments, isWord s.toList = true := by
  cases segments with
  | nil => exact absurd h (by decide)
  | cons first r =>
    simp only [isWordPath, isHead, Bool.and_eq_true, List.all_eq_true] at h
    exact List.forall_mem_cons.2 ⟨h.1.1, h.2⟩

theorem before_lifetimeName {space : List Char} {l : String} (hspace : space.all isSpace = true)
    (hl : isLifetimeName l = true) (hrest : EndsWord rest) : Before (lifetime space l) rest := by
  unfold isLifetimeName at hl
  split at hl
  · exact absurd hl (by decide)
  · next c r hcr =>
    obtain ⟨hc, hr⟩ := Bool.and_eq_true_iff.1 hl
    rw [lifetime, hcr]
    exact before_lifetime hspace hc hr hrest

/-- The marks of a reference stand well before the blank behind them. -/
theorem legible_markLexemes {l : Option String} (hl : l.all isLifetimeName = true) (mutable : Bool)
    (cs : List Char) : Legible (markLexemes l mutable).1 ((markLexemes l mutable).2 ++ cs) ∧
      (markLexemes l mutable).2.all isSpace = true := by
  have hmut : ∀ space : List Char, space.all isSpace = true → Before (ofName space "mut") (' ' :: cs) :=
    fun space hspace => before_word hspace (by decide) (endsWord_cons (by decide) _)
  cases l with
  | none =>
    cases mutable with
    | false => exact ⟨trivial, rfl⟩
    | true => exact ⟨⟨hmut [] rfl, trivial⟩, rfl⟩
  | some l =>
    have hlifetime : ∀ cs, Before (lifetime [] l) (' ' :: cs) := fun cs =>
      before_lifetimeName rfl hl (endsWord_cons (by decide) _)
    cases mutable with
    | false => exact ⟨⟨hlifetime _, trivial⟩, rfl⟩
    | true => exact ⟨⟨hlifetime _, hmut [' '] rfl, trivial⟩, rfl⟩

theorem before_digits {space : List Char} {n : String} (hspace : space.all isSpace = true)
    (hn : isDigits n = true) (hrest : ∀ d ∈ rest.head?, isIdentifierTail d = false ∧ d ≠ '.') :
    Before (number space n) rest := by
  unfold isDigits at hn
  split at hn
  · exact absurd hn (by decide)
  · next c r hcr =>
    obtain ⟨hc, hr⟩ := Bool.and_eq_true_iff.1 hn
    have hnumber := before_number hspace hc hr hrest
    rwa [← hcr, String.ofList_toList] at hnumber

theorem legible_furtherLexemes {ts : List TypeExpr}
    (h : ∀ t ∈ ts, ∀ rest, EndsWord rest → Legible (typeLexemes [' '] t) rest)
    (hrest : EndsWord rest) :
    Legible (furtherLexemes ts) rest ∧ EndsWord (print (furtherLexemes ts) ++ rest) := by
  induction ts with
  | nil => exact ⟨by simp [furtherLexemes], by simpa [furtherLexemes] using hrest⟩
  | cons t r ih =>
    obtain ⟨ht, hr⟩ := List.forall_mem_cons.1 h
    obtain ⟨hlegible, hends⟩ := ih hr
    rw [furtherLexemes]
    refine ⟨⟨before_sign rfl (by decide) _, legible_append.2 ⟨ht _ hends, hlegible⟩⟩, ?_⟩
    exact endsWord_cons (by decide) _

theorem legible_listLexemes {ts : List TypeExpr}
    (h : ∀ t ∈ ts, ∀ space : List Char, space.all isSpace = true → ∀ rest, EndsWord rest →
      Legible (typeLexemes space t) rest) (hrest : EndsWord rest) :
    Legible (listLexemes ts) rest := by
  cases ts with
  | nil => simp [listLexemes]
  | cons t r =>
    obtain ⟨ht, hr⟩ := List.forall_mem_cons.1 h
    obtain ⟨hlegible, hends⟩ := legible_furtherLexemes (fun t ht => hr t ht [' '] rfl) hrest
    rw [listLexemes]
    exact legible_append.2 ⟨ht [] rfl _ hends, hlegible⟩

/-- **The lexemes of a readable type are cut apart again.** -/
theorem legible_typeLexemes {t : TypeExpr} (h : t.IsReadable) {space : List Char}
    (hspace : space.all isSpace = true) (hrest : EndsWord rest) :
    Legible (typeLexemes space t) rest := by
  induction t using Ty.partsInduction generalizing space rest with
  | path segments args ih =>
    obtain ⟨hpath, -, hargs⟩ := h
    have hwords := isWord_of_isWordPath hpath
    cases args with
    | nil => simpa [typeLexemes] using legible_pathLexemes hspace hwords hrest
    | cons t r =>
      have hlist : Legible (listLexemes (t :: r)) ('>' :: rest) :=
        legible_listLexemes (fun u hu space hspace rest hrest =>
          ih u hu (allReadable_iff.1 hargs u hu) hspace hrest) (endsWord_cons (by decide) _)
      rw [typeLexemes]
      refine legible_append.2 ⟨legible_pathLexemes hspace hwords (endsWord_cons (by decide) _), ?_⟩
      exact ⟨before_sign rfl (by decide) _, legible_append.2 ⟨hlist, before_sign rfl (by decide) _, trivial⟩⟩
  | reference lifetime mutable inner ih =>
    obtain ⟨hmarks, hblank⟩ :=
      legible_markLexemes h.1 mutable ((TypeExpr.text inner).toList ++ rest)
    rw [typeLexemes]
    refine ⟨before_sign hspace (by decide) _, legible_append.2 ⟨?_, ih h.2 hblank hrest⟩⟩
    rwa [print_typeLexemes h.2, List.append_assoc]
  | slice element ih =>
    rw [IsReadable] at h
    rw [typeLexemes]
    exact ⟨before_sign hspace (by decide) _, legible_append.2
      ⟨ih h rfl (endsWord_cons (by decide) _), before_sign rfl (by decide) _, trivial⟩⟩
  | array element length ih =>
    rw [typeLexemes]
    exact ⟨before_sign hspace (by decide) _, legible_append.2
      ⟨ih h.1 rfl (endsWord_cons (by decide) _), before_sign rfl (by decide) _,
        legible_append.2 ⟨h.2.legible rest, before_sign rfl (by decide) _, trivial⟩⟩⟩
  | tuple elements ih =>
    rw [IsReadable] at h
    have hlist : ∀ rest, EndsWord rest → Legible (listLexemes elements) rest := fun rest hrest =>
      legible_listLexemes (fun u hu space hspace rest hrest =>
        ih u hu (allReadable_iff.1 h u hu) hspace hrest) hrest
    rw [typeLexemes]
    refine ⟨before_sign hspace (by decide) _, legible_append.2 ?_⟩
    split
    · exact ⟨hlist _ (endsWord_cons (by decide) _), before_sign rfl (by decide) _,
        before_sign rfl (by decide) _, trivial⟩
    · exact ⟨hlist _ (endsWord_cons (by decide) _), before_sign rfl (by decide) _, trivial⟩
  | traitObject keyword bound ih =>
    obtain ⟨hkeyword, -, hbound⟩ := h
    have hword : isWord keyword.toList = true := by rcases hkeyword with rfl | rfl <;> decide
    have hends : EndsWord (print (typeLexemes [' '] bound) ++ rest) := by
      rw [print_typeLexemes hbound]
      exact endsWord_cons (by decide) _
    rw [typeLexemes]
    exact ⟨before_word hspace hword hends, ih hbound rfl hrest⟩
  | verbatim text => exact h.elim

/-! ## Structured types are readable -/

/-- A number in digits is a length. -/
theorem isLength_digits {s : String} (hs : isDigits s = true) : IsLength s := by
  have hbefore : ∀ rest, Before (number [' '] s) (']' :: rest) := fun rest =>
    before_digits rfl hs (by simp; decide)
  have hne : ∀ t, isDigits t = false → (s == t) = false := by
    intro t ht
    rw [beq_eq_false_iff_ne]
    rintro rfl
    exact absurd (ht.symm.trans hs) (by decide)
  have hclose : isClosingBracket s = false := by
    simp [isClosingBracket, hne ")" (by decide), hne "]" (by decide), hne closeBrace (by decide)]
  have hopen : closingBracket? s = none := by
    unfold closingBracket?
    split
    all_goals first
      | rfl
      | exact absurd hs (by decide)
  have hpasses : Passes [(number [' '] s).form] :=
    .token (List.forall_mem_nil _) (by simp [number, Lexeme.form])
      (by simp [number, Lexeme.form, fitsGroup]) hopen hclose .nil
  exact (isLength_of_lexemes (l := number [' '] s) (r := []) rfl rfl (by simp [number])
    (fun rest => ⟨hbefore rest, trivial⟩) hpasses (by rintro _ ⟨⟩; rfl)).1

theorem foldl_segmentForm {r : List String} (h : ∀ s ∈ r, isPathTail s = true) :
    r.foldl (fun _ s => segmentForm s) .joined = .joined := by
  induction r with
  | nil => rfl
  | cons s r ih =>
    obtain ⟨hs, hr⟩ := List.forall_mem_cons.1 h
    have hjoined : segmentForm s = .joined :=
      if_neg (by simpa using (Bool.and_eq_true_iff.1 hs).2)
    rw [List.foldl_cons, hjoined, ih hr]

/-- A path of several segments is joined, whatever it begins with. -/
theorem pathForm_of_tail {first second : String} {r : List String}
    (h : ∀ s ∈ second :: r, isPathTail s = true) : pathForm (first :: second :: r) = .joined := by
  have hsecond := (Bool.and_eq_true_iff.1 (h second List.mem_cons_self)).2
  have hjoined : segmentForm second = .joined := if_neg (by simpa using hsecond)
  rw [pathForm, List.foldl_cons, hjoined, foldl_segmentForm fun s hs => h s (List.mem_cons_of_mem _ hs)]

/-- A path of names is a path of words. -/
theorem isWordPath_of_isNamePath {segments : List String} (h : isNamePath segments = true) :
    isWordPath segments = true ∧ pathForm segments = nameForm segments := by
  cases segments with
  | nil => exact absurd h (by decide)
  | cons first r =>
    obtain ⟨hfirst, hr⟩ := Bool.and_eq_true_iff.1 h
    obtain ⟨hword, hopening⟩ := Bool.and_eq_true_iff.1 hfirst
    have hopening : first ∉ openingWords := by simpa using hopening
    have hall : ∀ s ∈ r, isPathTail s = true := List.all_eq_true.1 hr
    have hsubset : ∀ w ∈ typeWords, w ∈ openingWords := by decide
    refine ⟨Bool.and_eq_true_iff.2 ⟨Bool.and_eq_true_iff.2 ⟨hword, ?_⟩, ?_⟩, ?_⟩
    · simpa using fun hmem => hopening (hsubset _ hmem)
    · exact List.all_eq_true.2 fun s hs => (Bool.and_eq_true_iff.1 (hall s hs)).1
    · cases r with
      | nil =>
        simp only [openingWords, List.mem_append, not_or] at hopening
        simp [pathForm, headForm, nameForm, hopening]
      | cons s r => exact pathForm_of_tail hall

theorem nameForm_facts (segments : List String) : (nameForm segments).isComplete = true ∧
    ((nameForm segments).isPlain = true → (nameForm segments).takesArguments = true) := by
  unfold nameForm
  split
  · split <;> decide
  · decide

/-- A bound made of names is one made of words. -/
theorem isBoundable_of_isBound {t : TypeExpr} (ht : t.isStructured = true) (h : t.isBound = true) :
    t.isBoundable = true := by
  cases t with
  | path segments args =>
    simp only [isStructured, Bool.and_eq_true] at ht
    rw [isBoundable, (isWordPath_of_isNamePath ht.1.1).2]
    exact Bool.or_eq_true_iff.2 (.inr h)
  | tuple elements => cases elements with
    | nil => exact h
    | cons => rfl
  | _ => exact h

/-- **A structured type is readable.** -/
theorem isReadable_of_isStructured {t : TypeExpr} (h : t.isStructured = true) : t.IsReadable := by
  induction t using Ty.partsInduction with
  | path segments args ih =>
    simp only [isStructured, Bool.and_eq_true, Bool.or_eq_true] at h
    obtain ⟨⟨hpath, hplain⟩, hargs⟩ := h
    obtain ⟨hwords, hform⟩ := isWordPath_of_isNamePath hpath
    obtain ⟨hcomplete, htakes⟩ := nameForm_facts segments
    refine ⟨hwords, ?_, allReadable_iff.2 fun t ht => ih t ht (allStructured_iff.1 hargs t ht)⟩
    rw [hform]
    split
    · exact hcomplete
    · next hne => exact htakes (hplain.resolve_left hne)
  | reference lifetime mutable inner ih =>
    simp only [isStructured, Bool.and_eq_true] at h
    exact ⟨h.1, ih h.2⟩
  | slice element ih => exact ih h
  | array element length ih =>
    simp only [isStructured, Bool.and_eq_true] at h
    exact ⟨ih h.1, isLength_digits h.2⟩
  | tuple elements ih =>
    exact allReadable_iff.2 fun t ht => ih t ht (allStructured_iff.1 h t ht)
  | traitObject keyword bound ih =>
    simp only [isStructured, Bool.and_eq_true, Bool.or_eq_true, beq_iff_eq] at h
    exact ⟨h.1.1, isBoundable_of_isBound h.2 h.1.2, ih h.2⟩
  | verbatim text => simp [isStructured] at h

end Legible

end Source

end ModelPool
