import Mathlib.Data.List.Forall2
import ModelPool.Proofs.Source.FieldReading
import ModelPool.Proofs.Source.UseReading
import ModelPool.Proofs.Source.ValueReading
import ModelPool.Source.Unit

/-!
# Proofs/Source/StatementReading — statements are read back

The statements of generated sources: an attribute that names a package, imports of whole packages, a
public struct with its fields, constants with texts for values, and an `impl` block with such constants.
Each is read from its lexemes, whatever follows it.

* `finds_statement_useTree` — a `use` declaration, with any visibility and any tree.
* `finds_struct`, `finds_statement_impl` — the statements of a model.
-/

namespace ModelPool.Source

open Lexeme TypeExpr Reader Text

section Statements

variable {N n : Nat} {ls ls' r : List Lexeme} {l : Lexeme} {space : List Char} {t : TypeExpr}
  {name : String}

/-! ## Lookahead -/

theorem reads_skipFunctionModifiers_stop (hl : visible ls = l :: r) (hmodifier : l.text ∉ functionModifiers)
    (hforeign : l.text ≠ "extern") : Reads N (skipFunctionModifiers (n + 1)) ls () ls := by
  unfold skipFunctionModifiers
  refine reads_bind (reads_text hl) (reads_if_not (by simpa using hmodifier) ?_)
  exact reads_if_not (by simpa using hforeign) reads_pure

theorem reads_skipFunctionModifiers_const (hrest : Reads N (skipFunctionModifiers n) r () ls') :
    Reads N (skipFunctionModifiers (n + 1)) (ofName space "const" :: r) () ls' := by
  unfold skipFunctionModifiers
  exact reads_bind (reads_text rfl) (reads_if (by simp [functionModifiers])
    (reads_bind (reads_skip rfl) hrest))

/-- Where no `fn` stands behind the modifiers, no function is ahead. -/
theorem reads_atFunction (hskip : ∀ N, Reads N (skipFunctionModifiers n) ls () ls')
    (hl : visible ls' = l :: r) (htext : l.text ≠ "fn") : Reads N (atFunction n) ls false ls := by
  unfold atFunction
  refine reads_get fun here _ _ => reads_orElse_of_refuses ?_ reads_pure
  exact refuses_bind_of_reads hskip (refuses_bind (refuses_expect hl htext))

/-- A keyword that begins no function is ahead. -/
theorem reads_atFunction_keyword (hname : name ∉ functionModifiers) (hforeign : name ≠ "extern")
    (hfn : name ≠ "fn") (r : List Lexeme) :
    Reads N (atFunction (n + 1)) (ofName space name :: r) false (ofName space name :: r) :=
  reads_atFunction (fun _ => reads_skipFunctionModifiers_stop rfl hname hforeign) rfl hfn

/-- A keyword that is no visibility is ahead. -/
theorem reads_visibility_keyword (hpub : name ≠ "pub") (hcrate : name ≠ "crate") (r : List Lexeme) :
    Reads N (visibility n) (ofName space name :: r) false (ofName space name :: r) := by
  unfold visibility
  refine reads_bind (reads_textPair rfl) (reads_if_not (by simpa using hpub) (reads_if_not ?_ reads_pure))
  simp [hcrate]

theorem reads_atMacroRules (hl : visible ls = l :: r) (htext : l.text ≠ "macro_rules") :
    Reads N atMacroRules ls false ls := by
  unfold atMacroRules
  refine reads_get fun c _ hc => ?_
  have hahead : ∀ t q, c.passComments.rest = t :: q → t.is "macro_rules" = false := by
    intro t q ht
    have hlexemes := c.lexemes_passComments
    rw [hc, hl, Cursor.lexemes, ht, List.map_cons] at hlexemes
    have htoken : t.text = l.text := congrArg Lexeme.text (List.cons.inj hlexemes).1
    simpa [Token.is, htoken] using htext
  split
  · next t u q heq => rw [hahead t _ heq]; exact reads_pure
  · exact reads_pure

/-! ## Structs -/

theorem reads_typeParameters?_nil (hl : visible ls = l :: r) (htext : l.text ≠ "<") :
    Reads N (typeParameters? n) ls [] ls :=
  reads_bind (reads_text hl) (reads_if_not (by simpa using htext) reads_pure)

theorem reads_whereClause_nil (hl : visible ls = l :: r) (htext : l.text ≠ "where") :
    Reads N (whereClause n) ls () ls :=
  reads_bind (reads_optional_of_ne hl htext) (reads_if_not (by decide) reads_pure)

/-- A body of fields begins with a word or with the sign that closes it. -/
theorem exists_visible_fields (indent : List Char) (fs : List (String × TypeExpr × List String))
    (space : List Char) (ls : List Lexeme) :
    ∃ l r, visible (fs.flatMap (fieldLexemes indent) ++ sign space '\x7d' :: ls) = l :: r ∧
      l.text ≠ "," := by
  cases fs with
  | nil => exact ⟨_, _, rfl, by simp⟩
  | cons f fs =>
    rw [List.flatMap_cons, fieldLexemes, List.append_assoc, List.append_assoc,
      visible_append isComment_docLexemes]
    exact ⟨_, _, rfl, by simp⟩

/-- Named fields in braces are found. -/
theorem finds_namedFields {fs : List (String × TypeExpr × List String)} {indent : List Char}
    (hfs : ∀ f ∈ fs, IsWritten f) (hn : 8 * (fs.flatMap (fieldLexemes indent)).length < n) :
    Finds N (namedFields n)
      (sign space '\x7b' :: (fs.flatMap (fieldLexemes indent) ++ sign ['\n'] '\x7d' :: ls))
      (fun found => ∃ gs : List Field, gs.map Field.content = fs ∧ found = .named gs) ls := by
  obtain ⟨l, r, hl, hcomma⟩ := exists_visible_fields indent fs ['\n'] ls
  unfold namedFields
  refine finds_of_reads (reads_expect rfl rfl) (finds_of_reads (reads_optional_of_ne hl hcomma) ?_)
  refine finds_if_not (by decide) (finds_bind (finds_fieldsBehind hfs hn) fun gs hgs => ?_)
  exact finds_of_reads (reads_close rfl rfl) (finds_pure ⟨gs, hgs, rfl⟩)

/-- A struct with named fields is found behind its parameters. -/
theorem finds_struct_of_parameters {fs : List (String × TypeExpr × List String)} {indent : List Char}
    {h : Heading} {front : List Lexeme} {generics : List String}
    (hgenerics : ∀ r, Reads N (typeParameters? n) (front ++ sign [' '] '\x7b' :: r) generics
      (sign [' '] '\x7b' :: r))
    (hfs : ∀ f ∈ fs, IsWritten f) (hn : 8 * (fs.flatMap (fieldLexemes indent)).length < n) :
    Finds N (struct n h)
      (ofName space "struct" :: ofName [' '] name :: (front ++ sign [' '] '\x7b' ::
        (fs.flatMap (fieldLexemes indent) ++ sign ['\n'] '\x7d' :: ls)))
      (fun s => ∃ gs : List Field, gs.map Field.content = fs ∧
        s = h.item name generics (.struct (.named gs))) ls := by
  unfold struct
  refine finds_of_reads (reads_expect rfl rfl) (finds_of_reads (reads_word rfl rfl) ?_)
  refine finds_of_reads (hgenerics _) ?_
  refine finds_of_reads (reads_text rfl) (finds_if_not (by decide) (finds_if (by decide) ?_))
  refine finds_of_reads (reads_whereClause_nil rfl (by simp)) ?_
  refine finds_bind (finds_namedFields hfs hn) fun found hfound => ?_
  obtain ⟨gs, hgs, rfl⟩ := hfound
  exact finds_pure ⟨gs, hgs, rfl⟩

/-- **A struct with named fields** is found. -/
theorem finds_struct {fs : List (String × TypeExpr × List String)} {indent : List Char} {h : Heading}
    (hfs : ∀ f ∈ fs, IsWritten f) (hn : 8 * (fs.flatMap (fieldLexemes indent)).length < n) :
    Finds N (struct n h)
      (ofName space "struct" :: ofName [' '] name :: sign [' '] '\x7b' ::
        (fs.flatMap (fieldLexemes indent) ++ sign ['\n'] '\x7d' :: ls))
      (fun s => ∃ gs : List Field, gs.map Field.content = fs ∧
        s = h.item name [] (.struct (.named gs))) ls :=
  @finds_struct_of_parameters N n ls space name fs indent h [] []
    (fun _ => reads_typeParameters?_nil rfl (by simp)) hfs hn

/-! ## Declarations -/

/-- **A public declaration** is found as a statement; comments may stand before it. -/
theorem finds_statement_public {P : Statement → Prop} {expressions : Bool}
    (hls : visible ls = ofName space "pub" :: l :: r) (hl : l.isComment = false) (htext : l.text ≠ "(")
    (hfound : ∀ line, Finds N (declaration? n ⟨line, true⟩) (l :: r)
      (fun s => ∃ found, s = some found ∧ P found) ls') :
    Finds N (statement (n + 1) expressions) ls P ls' := by
  have hvisibility : Reads N (visibility n) ls true (l :: r) := reads_visibility_pub hls hl htext
  unfold statement
  refine finds_line fun line => finds_of_reads (reads_textPair hls) (finds_if_not (by simp) ?_)
  refine finds_of_reads (reads_kind? hls) (finds_if_not (by simp [ofName]) ?_)
  refine finds_of_reads hvisibility (finds_if rfl (finds_bind (hfound line) fun s hs => ?_))
  obtain ⟨found, rfl, hP⟩ := hs
  exact finds_pure hP

/-- A struct is found as a declaration. -/
theorem finds_declaration_struct {P : Statement → Prop} {h : Heading} (hn : 0 < n)
    (hfound : Finds N (struct n h) (ofName space "struct" :: r) P ls) :
    Finds N (declaration? (n + 1) h) (ofName space "struct" :: r)
      (fun s => ∃ found, s = some found ∧ P found) ls := by
  obtain ⟨n, rfl⟩ := Nat.exists_eq_add_one_of_ne_zero hn.ne'
  have hfunction : Reads N (atFunction (n + 1)) (ofName space "struct" :: r) false _ :=
    reads_atFunction_keyword (by simp [functionModifiers]) (by simp) (by simp) r
  have hrules : Reads N atMacroRules (ofName space "struct" :: r) false _ :=
    reads_atMacroRules rfl (by simp)
  unfold declaration?
  refine finds_of_reads (reads_textPair rfl) (finds_get fun _ _ _ => ?_)
  refine finds_of_reads hfunction (finds_if_not (by decide) ?_)
  refine finds_of_reads hrules (finds_if_not (by decide) ?_)
  exact finds_map (hfound.imp fun s hs => ⟨s, rfl, hs⟩)

/-- **A public struct** is found as a statement. -/
theorem finds_statement_struct {fs : List (String × TypeExpr × List String)} {indent : List Char}
    (hfs : ∀ f ∈ fs, IsWritten f) (hn : 8 * (fs.flatMap (fieldLexemes indent)).length + 3 < n) :
    Finds N (statement n true)
      (ofName space "pub" :: ofName [' '] "struct" :: ofName [' '] name :: sign [' '] '\x7b' ::
        (fs.flatMap (fieldLexemes indent) ++ sign ['\n'] '\x7d' :: ls))
      (fun s => ∃ (gs : List Field) (line : Nat), gs.map Field.content = fs ∧
        s = .item ⟨name, .struct (.named gs), [], [], [], true, line⟩) ls := by
  obtain ⟨n, rfl⟩ : ∃ k, n = k + 2 := ⟨n - 2, by omega⟩
  refine finds_statement_public rfl rfl (by simp) fun line => ?_
  refine finds_declaration_struct (by omega) ((finds_struct hfs (by omega)).imp ?_)
  rintro _ ⟨gs, hgs, rfl⟩
  exact ⟨gs, line, hgs, rfl⟩

/-! ## Constants -/

/-- What a name needs so that no function is read where a constant is declared. -/
theorem reads_atFunction_const (hn : 1 < n) (hname : isPathHead name = true) :
    Reads N (atFunction n) (ofName space "const" :: ofName [' '] name :: r) false
      (ofName space "const" :: ofName [' '] name :: r) := by
  obtain ⟨n, rfl⟩ : ∃ k, n = k + 2 := ⟨n - 2, by omega⟩
  have hopening : name ∉ openingWords := by
    simpa using (Bool.and_eq_true_iff.1 hname).2
  have hne : ∀ s ∈ openingWords, name ≠ s := fun s hs heq => hopening (heq ▸ hs)
  refine reads_atFunction (fun N => reads_skipFunctionModifiers_const
    (reads_skipFunctionModifiers_stop rfl ?_ (hne _ (by decide)))) rfl (hne _ (by decide))
  exact fun hmem => hopening (List.mem_append_left _ (List.mem_append_left _
    (List.mem_append_left _ hmem)))

/-- A constant is found as a declaration. -/
theorem finds_declaration_const {P : Statement → Prop} {h : Heading} (hn : 1 < n)
    (hname : isPathHead name = true)
    (hfound : Finds N (constant n h) (ofName space "const" :: ofName [' '] name :: r) P ls) :
    Finds N (declaration? (n + 1) h) (ofName space "const" :: ofName [' '] name :: r)
      (fun s => ∃ found, s = some found ∧ P found) ls := by
  have hrules : Reads N atMacroRules (ofName space "const" :: ofName [' '] name :: r) false _ :=
    reads_atMacroRules rfl (by simp)
  unfold declaration?
  refine finds_of_reads (reads_textPair rfl) (finds_get fun _ _ _ => ?_)
  refine finds_of_reads (reads_atFunction_const hn hname) (finds_if_not (by decide) ?_)
  refine finds_of_reads hrules (finds_if_not (by decide) ?_)
  refine finds_if_not ?_ (finds_map (hfound.imp fun s hs => ⟨s, rfl, hs⟩))
  rw [textAhead_of_visible rfl]
  simpa using ne_of_isWord (Bool.and_eq_true_iff.1 hname).1 (by decide)

/-- The lexemes of a public constant. -/
def constLexemes (space : List Char) (name : String) (t : TypeExpr) (value : List Lexeme) : List Lexeme :=
  ofName space "pub" :: ofName [' '] "const" :: ofName [' '] name :: sign [] ':' ::
    (typeLexemes [' '] t ++ sign [' '] '=' :: (value ++ [sign [] ';']))

/-- **A public constant** is found as a statement; comments may stand before it. -/
theorem finds_statement_const {expressions : Bool} {value : List Lexeme}
    (hls : visible ls = constLexemes space name t value ++ ls') (hname : isPathHead name = true)
    (ht : t.isStructured = true) (hn : 8 * lexemeCount t + 4 < n)
    (hvalue : ∀ n ls, 4 ≤ n → Reads N (expression n true) (value ++ sign [] ';' :: ls) ()
      (sign [] ';' :: ls)) :
    Finds N (statement n expressions) ls
      (fun s => ∃ line, s = .item ⟨name, .const t, [], [], [], true, line⟩) ls' := by
  obtain ⟨n, rfl⟩ : ∃ k, n = k + 4 := ⟨n - 4, by omega⟩
  have hreadable := isReadable_of_isStructured ht
  have hcount := lexemeCount_pos hreadable
  have htype : Reads N (type (n + 2)) (typeLexemes [' '] t ++ sign [' '] '=' ::
      (value ++ sign [] ';' :: ls')) t _ :=
    (readsBack hreadable).type hreadable (by omega) (stops_sign (by decide) _)
  have hinitial : Reads N (initialValue (n + 2)) (sign [' '] '=' :: (value ++ sign [] ';' :: ls')) () ls' :=
    reads_bind (reads_optional rfl rfl) (reads_if rfl (reads_bind (hvalue _ _ (by omega))
      (reads_close rfl rfl)))
  have hconstant : ∀ h : Heading, Reads N (constant (n + 2) h)
      (ofName [' '] "const" :: ofName [' '] name :: sign [] ':' ::
        (typeLexemes [' '] t ++ sign [' '] '=' :: (value ++ sign [] ';' :: ls')))
      (h.item name [] (.const t)) ls' := by
    intro h
    unfold constant
    refine reads_bind (reads_expect rfl rfl) (reads_bind (reads_word rfl rfl) ?_)
    refine reads_bind (reads_expect rfl rfl) (reads_bind htype ?_)
    exact reads_bind hinitial reads_pure
  have hshape : constLexemes space name t value ++ ls' =
      ofName space "pub" :: ofName [' '] "const" :: ofName [' '] name :: sign [] ':' ::
        (typeLexemes [' '] t ++ sign [' '] '=' :: (value ++ sign [] ';' :: ls')) := by
    simp [constLexemes]
  refine finds_statement_public (hls.trans hshape) rfl (by simp) fun line => ?_
  exact finds_declaration_const (by omega) hname ((hconstant _).finds ⟨line, rfl⟩)

/-! ## Implementation blocks -/

/-- **A constant as it is written**, with the comments before it. -/
structure WrittenConst where
  comments : List Lexeme
  space : List Char
  name : String
  type : TypeExpr
  value : List Lexeme

namespace WrittenConst

/-- The lexemes of a written constant. -/
def lexemes (c : WrittenConst) : List Lexeme := c.comments ++ constLexemes c.space c.name c.type c.value

/-- The constant is read back. -/
structure IsRead (c : WrittenConst) : Prop where
  comments : ∀ l ∈ c.comments, l.isComment = true
  name : isPathHead c.name = true
  type : c.type.isStructured = true
  value : ∀ N n ls, 4 ≤ n → Reads N (expression n true) (c.value ++ sign [] ';' :: ls) ()
    (sign [] ';' :: ls)

theorem IsRead.visible_eq {c : WrittenConst} (h : c.IsRead) (ls : List Lexeme) :
    visible (c.lexemes ++ ls) = constLexemes c.space c.name c.type c.value ++ ls := by
  rw [lexemes, List.append_assoc, visible_append h.comments]
  rfl

theorem lexemeCount_le (c : WrittenConst) : lexemeCount c.type + 4 ≤ c.lexemes.length := by
  simp only [lexemes, constLexemes, List.length_append, List.length_cons, length_typeLexemes]
  omega

end WrittenConst

/-- The constants of a block are found up to the closing brace. -/
theorem finds_declarations {cs : List WrittenConst} (hcs : ∀ c ∈ cs, c.IsRead)
    (hn : 8 * (cs.flatMap WrittenConst.lexemes).length < n) :
    Finds N (declarations n) (cs.flatMap WrittenConst.lexemes ++ sign space '\x7d' :: ls)
      (fun ss => List.Forall₂ (fun (c : WrittenConst) m => ∃ line, m = .const c.name c.type line) cs
        (ss.filterMap Statement.member?)) ls := by
  induction cs generalizing n with
  | nil =>
    obtain ⟨n, rfl⟩ := Nat.exists_eq_add_one_of_ne_zero (Nat.ne_zero_of_lt hn)
    unfold declarations
    refine finds_of_reads (reads_closes rfl) (finds_if (by simp; decide) ?_)
    exact finds_of_reads (reads_close rfl rfl) (finds_pure .nil)
  | cons c cs ih =>
    obtain ⟨hc, hrest⟩ := List.forall_mem_cons.1 hcs
    have hcount := c.lexemeCount_le
    rw [List.flatMap_cons, List.length_append] at hn
    obtain ⟨n, rfl⟩ := Nat.exists_eq_add_one_of_ne_zero (Nat.ne_zero_of_lt hn)
    rw [List.flatMap_cons, List.append_assoc]
    have hvisible := hc.visible_eq (cs.flatMap WrittenConst.lexemes ++ sign space '\x7d' :: ls)
    have hstatement := @finds_statement_const N n _ _ c.space c.type c.name false c.value hvisible
      hc.name hc.type (by omega) (hc.value N)
    unfold declarations
    refine finds_of_reads (reads_closes hvisible) (finds_if_not (by simp; decide) ?_)
    refine finds_bind hstatement fun s hs => finds_bind (ih hrest (by omega)) fun ss hss => finds_pure ?_
    obtain ⟨line, rfl⟩ := hs
    exact List.Forall₂.cons ⟨line, rfl⟩ hss

/-- What stands before a body is no trait. -/
theorem reads_implementedTrait?_none (hname : isPathHead name = true) (hn : 1 < n) :
    Reads N (implementedTrait? n) (ofName space name :: sign [' '] '\x7b' :: ls) none
      (ofName space name :: sign [' '] '\x7b' :: ls) := by
  obtain ⟨n, rfl⟩ : ∃ k, n = k + 2 := ⟨n - 2, by omega⟩
  have hword : isWord name.toList = true := (Bool.and_eq_true_iff.1 hname).1
  have hforms : nameForm [name] = .primitive ∨ nameForm [name] = .lone := by
    by_cases h : primitiveTypes.contains name = true
    · exact .inl (if_pos h)
    · exact .inr (if_neg h)
  have hcomplete : (nameForm [name]).isComplete = true := by
    rcases hforms with h | h <;> rw [h] <;> rfl
  have hnames : isNamePath [name] = true := by simpa [isNamePath] using hname
  obtain ⟨hwords, hform⟩ := isWordPath_of_isNamePath hnames
  have hpath : ∀ N, Reads N (path (n + 2)) (ofName space name :: sign [' '] '\x7b' :: ls)
      (nameForm [name], .path [name] []) (sign [' '] '\x7b' :: ls) := fun N => by
    rw [← hform] at hcomplete ⊢
    exact reads_path_words space hwords fun start =>
      reads_pathFrom_stop hcomplete (stops_sign (by decide) _)
  have hoptional : ∀ N, Reads N (optional "!") (ofName space name :: sign [' '] '\x7b' :: ls) false _ :=
    fun N => reads_optional_of_ne rfl (ne_of_isWord hword (by decide))
  unfold implementedTrait?
  refine reads_orElse_of_refuses ?_ reads_pure
  refine refuses_bind_of_reads hoptional (refuses_bind_of_reads hpath ?_)
  rcases hforms with h | h <;> rw [h]
  · exact refuses_bind refuses_failure
  · exact refuses_bind (refuses_expect rfl (by simp))

/-- A name before a body is a type. -/
theorem reads_type_name (hname : isPathHead name = true) (hn : 8 < n) :
    Reads N (type n) (ofName space name :: sign [' '] '\x7b' :: ls) (.path [name] [])
      (sign [' '] '\x7b' :: ls) := by
  obtain ⟨n, rfl⟩ := Nat.exists_eq_add_one_of_ne_zero (Nat.ne_zero_of_lt hn)
  have ht : IsReadable (.path [name] []) := isReadable_of_isStructured (by
    simp [isStructured, isNamePath, allStructured, hname])
  have hlexemes : ∀ space, typeLexemes space (.path [name] []) = [ofName space name] := by
    intro space
    simp [typeLexemes, pathLexemes, segmentLexemes]
  have hcount : lexemeCount (.path [name] []) = 1 := by rw [lexemeCount, hlexemes]; rfl
  have hread := @ReadsBack.type N n space _ (sign [' '] '\x7b' :: ls) (readsBack ht) ht (by omega)
    (stops_sign (by decide) _)
  rwa [hlexemes] at hread

/-- A block is no declaration. -/
theorem reads_declaration?_impl (h : Heading) (r : List Lexeme) :
    Reads N (declaration? (n + 2) h) (ofName space "impl" :: r) none (ofName space "impl" :: r) := by
  have hfunction : Reads N (atFunction (n + 1)) (ofName space "impl" :: r) false _ :=
    reads_atFunction_keyword (by simp [functionModifiers]) (by simp) (by simp) r
  have hrules : Reads N atMacroRules (ofName space "impl" :: r) false _ :=
    reads_atMacroRules rfl (by simp)
  unfold declaration?
  refine reads_bind (reads_textPair rfl) (reads_get fun _ _ _ => ?_)
  refine reads_bind hfunction (reads_if_not (by decide) ?_)
  exact reads_bind hrules (reads_if_not (by decide) reads_pure)

/-- **A block with constants** is found as a statement. -/
theorem finds_statement_impl {cs : List WrittenConst} (hname : isPathHead name = true)
    (hcs : ∀ c ∈ cs, c.IsRead) (hn : 8 * (cs.flatMap WrittenConst.lexemes).length + 16 < n) :
    Finds N (statement n true)
      (ofName space "impl" :: ofName [' '] name :: sign [' '] '\x7b' ::
        (cs.flatMap WrittenConst.lexemes ++ sign ['\n'] '\x7d' :: ls))
      (fun s => ∃ line members, s = .impl ⟨[], none, .path [name] [], members, line⟩ ∧
        List.Forall₂ (fun (c : WrittenConst) m => ∃ line, m = .const c.name c.type line) cs members) ls := by
  obtain ⟨n, rfl⟩ : ∃ k, n = k + 3 := ⟨n - 3, by omega⟩
  have hword : isWord name.toList = true := (Bool.and_eq_true_iff.1 hname).1
  unfold statement
  refine finds_line fun line => finds_of_reads (reads_textPair rfl) (finds_if_not (by simp) ?_)
  refine finds_of_reads (reads_kind? rfl) (finds_if_not (by simp [ofName]) ?_)
  refine finds_of_reads (reads_visibility_keyword (by simp) (by simp) _) (finds_if_not (by decide) ?_)
  refine finds_of_reads (reads_declaration?_impl _ _) (finds_if_not (by simp) (finds_if (by simp) ?_))
  unfold implBlock
  refine finds_of_reads (reads_optional_of_ne rfl (by simp)) (finds_of_reads (reads_expect rfl rfl) ?_)
  refine finds_of_reads (reads_typeParameters?_nil rfl (ne_of_isWord hword (by decide))) ?_
  refine finds_of_reads (reads_implementedTrait?_none hname (by omega)) (finds_of_reads (reads_type_name hname (by omega)) ?_)
  refine finds_of_reads (reads_whereClause_nil rfl (by simp)) ?_
  refine finds_of_reads (reads_optional_of_ne rfl (by simp)) (finds_if_not (by decide) ?_)
  refine finds_of_reads (reads_expect rfl rfl) ?_
  refine finds_bind (finds_declarations hcs (by omega)) fun ss hss => ?_
  exact finds_pure ⟨line, _, rfl, hss⟩

/-! ## Imports -/

/-- The lexemes behind the path of an import. -/
def renamingLexemes : Option String → List Lexeme
  | none => []
  | some a => [ofName [' '] "as", ofName [' '] a]

/-- The tree of an import of a whole path. -/
def importTree (path : List String) : Option String → UseTree
  | none => .name path
  | some a => .renamed path a

/-- The lexemes of an import. -/
def useLexemes (space : List Char) (path : List String) (asName : Option String) : List Lexeme :=
  ofName space "use" :: (pathLexemes [' '] path ++ (renamingLexemes asName ++ [sign [] ';']))

theorem isTail_segmentLexemes {r : List String} (hr : ∀ s ∈ r, isWord s.toList = true) :
    IsTail r (segmentLexemes r) := by
  induction r with
  | nil => exact .nil
  | cons s r ih =>
    obtain ⟨hs, hr⟩ := List.forall_mem_cons.1 hr
    have hword : (ofName [] s).IsWord := ⟨rfl, hs⟩
    exact .cons rfl hword (ih hr)

/-- The tree of an import is written as its path and the name that it is given. -/
theorem spells_importTree {path : List String} {asName : Option String} (hne : path ≠ [])
    (hpath : ∀ s ∈ path, isWord s.toList = true) (hname : ∀ s ∈ asName, isWord s.toList = true) (space : List Char) :
    (importTree path asName).Spells (pathLexemes space path ++ renamingLexemes asName) := by
  obtain ⟨first, r, rfl⟩ := List.exists_cons_of_ne_nil hne
  obtain ⟨hfirst, hr⟩ := List.forall_mem_cons.1 hpath
  have hword : (ofName space first).IsWord := ⟨rfl, hfirst⟩
  have hspells : SpellsPath (first :: r) (pathLexemes space (first :: r)) [] :=
    .words (.first hword (isTail_segmentLexemes hr))
  cases asName with
  | none =>
    rw [renamingLexemes, List.append_nil]
    exact .name hspells hne
  | some a =>
    have hname : (ofName [' '] a).IsWord := ⟨rfl, hname a rfl⟩
    exact .renamed hspells hne rfl hname

/-- A scope is read behind `pub`. -/
theorem reads_visibilityScope {opening word closing : Lexeme} (hopening : opening.IsPlain) (hopen : opening.text = "(")
    (hword : word.IsPlain) (hkeyword : word.text ∈ pathKeywords) (hclosing : closing.IsPlain)
    (hclose : closing.text = ")") : Reads N (visibilityScope n) (opening :: word :: closing :: ls) () ls := by
  have hin : word.text ≠ "in" := by
    intro htext
    rw [htext] at hkeyword
    exact absurd hkeyword (by decide)
  have hkind : word.kind = .word := by
    simp only [pathKeywords, List.mem_cons, List.not_mem_nil, or_false] at hkeyword
    rcases hkeyword with htext | htext | htext <;> exact hword.isWord (by decide) htext
  have hvisible := hword.visible_cons (closing :: ls)
  unfold visibilityScope
  refine reads_bind (reads_expect (hopening.visible_cons _) hopen) (reads_bind (reads_optional_of_ne hvisible hin) ?_)
  refine reads_if_not (by decide) (reads_bind (reads_word hvisible hkind) (reads_if_not (by simpa using hkeyword) ?_))
  exact reads_expect (hclosing.visible_cons ls) hclose

/-- **A visibility is read** before `use`, unless it names a path. -/
theorem reads_visibility {front : List Lexeme} (h : IsVisibility front)
    (hplain : ∀ l ∈ front, l.IsPlain ∧ l.text ≠ "in") (r : List Lexeme) :
    Reads N (visibility n) (front ++ ofName space "use" :: r) (!front.isEmpty) (ofName space "use" :: r) := by
  cases h with
  | none => exact reads_visibility_keyword (by simp) (by simp) r
  | crate hl =>
    have hvisible := (hplain _ List.mem_cons_self).1.visible_cons (ofName space "use" :: r)
    have hsecond : textAhead (ofName space "use" :: r) = "use" := rfl
    unfold visibility
    refine reads_bind (reads_textPair hvisible) (reads_if_not (by simp [hl]) ?_)
    exact reads_if (by simp [hl, hsecond]) (reads_optional hvisible hl)
  | @pub l hl =>
    have hl' := (hplain l List.mem_cons_self).1
    have hshape : l = ofName l.space "pub" := by rw [ofName, ← hl'.isWord (by decide) hl, ← hl]
    rw [hshape]
    exact reads_visibility_pub rfl rfl (by simp)
  | @scope l opening word closing hl hopen hword hclose =>
    have hvisible := (hplain l (by simp)).1.visible_cons (opening :: word :: closing :: ofName space "use" :: r)
    have hscope := @reads_visibilityScope N n (ofName space "use" :: r) _ _ _ (hplain opening (by simp)).1 hopen
      (hplain word (by simp)).1 hword (hplain closing (by simp)).1 hclose
    unfold visibility
    refine reads_bind (reads_textPair hvisible) (reads_if (by simp [hl]) (reads_bind (reads_skip hvisible) ?_))
    exact reads_bind (reads_orElse hscope) reads_pure
  | path _ _ hkeyword _ => exact absurd hkeyword (hplain _ (by simp)).2

/-- What may stand before a `use` declaration begins no other statement. -/
theorem exists_visible_use (space : List Char) {front : List Lexeme} (h : IsVisibility front)
    (hplain : ∀ l ∈ front, l.IsPlain ∧ l.text ≠ "in")
    (r : List Lexeme) : ∃ l q, visible (front ++ ofName space "use" :: r) = l :: q ∧ l.kind = .word ∧
      l.text ≠ "#" ∧ l.text ≠ ";" := by
  have hword : ∀ {l : Lexeme} {q : List Lexeme}, (∀ k ∈ l :: q, k.IsPlain ∧ k.text ≠ "in") → ∀ s : String,
      isWord s.toList = true → l.text = s →
        visible (l :: (q ++ ofName space "use" :: r)) = l :: (q ++ ofName space "use" :: r) ∧
        l.kind = .word ∧ l.text ≠ "#" ∧ l.text ≠ ";" := by
    intro l q hplain s hs htext
    have hl := (hplain l List.mem_cons_self).1
    refine ⟨hl.visible_cons _, hl.isWord hs htext, ?_⟩
    rw [htext]
    exact ⟨ne_of_isWord hs (by decide), ne_of_isWord hs (by decide)⟩
  cases h with
  | none => exact ⟨_, _, rfl, rfl, by simp, by simp⟩
  | crate hl => exact ⟨_, _, hword hplain _ (by decide) hl⟩
  | pub hl => exact ⟨_, _, hword hplain _ (by decide) hl⟩
  | scope hl _ _ _ => exact ⟨_, _, hword hplain _ (by decide) hl⟩
  | path hl _ _ _ => exact ⟨_, _, hword hplain _ (by decide) hl⟩

/-- A `use` declaration is found behind its visibility. -/
theorem finds_declaration_use {tree : UseTree} {body : List Lexeme} {semicolon : Lexeme} (htree : tree.Spells body)
    (hplain : ∀ l ∈ body, l.IsPlain) (hbody : AreSpaced body) (hsemicolon : semicolon.IsPlain)
    (hend : semicolon.text = ";") (hn : body.length + 4 < n) (h : Heading) :
    Finds N (declaration? n h) (ofName space "use" :: (body ++ semicolon :: ls))
      (fun s => s = some (.use h.line tree)) ls := by
  obtain ⟨n, rfl⟩ : ∃ k, n = k + 2 := ⟨n - 2, by omega⟩
  have hvisible := hsemicolon.visible_cons ls
  have hfunction : ∀ r, Reads N (atFunction (n + 1)) (ofName space "use" :: r) false (ofName space "use" :: r) :=
    reads_atFunction_keyword (by simp [functionModifiers]) (by simp) (by simp)
  have hrules : ∀ r, Reads N atMacroRules (ofName space "use" :: r) false (ofName space "use" :: r) :=
    fun r => reads_atMacroRules rfl (by simp)
  have hreads : Reads N (useTree (n + 1)) (body ++ semicolon :: ls) tree (semicolon :: ls) :=
    htree.reads hplain hbody ⟨_, _, hvisible, .inr (.inr hend)⟩ (by omega)
  unfold declaration?
  refine finds_of_reads (reads_textPair rfl) (finds_get fun _ _ _ => ?_)
  refine finds_of_reads (hfunction _) (finds_if_not (by decide) ?_)
  refine finds_of_reads (hrules _) (finds_if_not (by decide) (finds_map ?_))
  unfold useDeclaration
  refine finds_of_reads (reads_expect rfl rfl) (finds_of_reads hreads ?_)
  exact finds_of_reads (reads_close hvisible hend) (finds_pure rfl)

/-- **A `use` declaration** is found as a statement. -/
theorem finds_statement_useTree {tree : UseTree} {front body : List Lexeme} {semicolon : Lexeme}
    (hfront : IsVisibility front) (hfrontPlain : ∀ l ∈ front, l.IsPlain ∧ l.text ≠ "in") (htree : tree.Spells body)
    (hplain : ∀ l ∈ body, l.IsPlain) (hbody : AreSpaced body) (hsemicolon : semicolon.IsPlain)
    (hend : semicolon.text = ";") (hn : body.length + 8 < n) :
    Finds N (statement n true) (front ++ ofName space "use" :: (body ++ semicolon :: ls))
      (fun s => ∃ line, s = .use line tree) ls := by
  obtain ⟨n, rfl⟩ : ∃ k, n = k + 1 := ⟨n - 1, by omega⟩
  obtain ⟨l, q, hl, hkind, hhash, hmark⟩ := exists_visible_use space hfront hfrontPlain
    (body ++ semicolon :: ls)
  have hfound : ∀ h : Heading, Finds N (declaration? n h) (ofName space "use" :: (body ++ semicolon :: ls))
      (fun s => s = some (.use h.line tree)) ls :=
    finds_declaration_use htree hplain hbody hsemicolon hend (by omega)
  unfold statement
  refine finds_line fun line => finds_of_reads (reads_textPair hl) (finds_if_not (by simpa using hhash) ?_)
  refine finds_of_reads (reads_kind? hl) (finds_if_not (by simp [hkind, hmark]) ?_)
  refine finds_of_reads (reads_visibility hfront hfrontPlain _) ?_
  split
  · refine finds_bind (hfound _) fun s hs => ?_
    subst hs
    exact finds_pure ⟨line, rfl⟩
  · refine finds_bind (hfound _) fun s hs => ?_
    subst hs
    exact finds_pure ⟨line, rfl⟩

/-- The lexemes of an import behind its keyword are words and signs. -/
theorem isPlain_importLexemes {path : List String} {asName : Option String} (hpath : ∀ s ∈ path, isWord s.toList = true)
    (hname : ∀ s ∈ asName, isWord s.toList = true) :
    ∀ l ∈ pathLexemes [' '] path ++ renamingLexemes asName, l.IsPlain ∧ ∀ c ∈ l.space, isBlank c = true := by
  have hnone : ∀ c ∈ ([] : List Char), isBlank c = true := List.forall_mem_nil _
  have hblank : ∀ c ∈ [' '], isBlank c = true := List.forall_mem_singleton.2 (by decide)
  have hofName : ∀ {space : List Char} {s : String}, isWord s.toList = true → (∀ c ∈ space, isBlank c = true) →
      (ofName space s).IsPlain ∧ ∀ c ∈ (ofName space s).space, isBlank c = true :=
    fun hs hspace => ⟨⟨.inl ⟨rfl, hs⟩, ne_of_isWord hs (by decide)⟩, hspace⟩
  have hsegments : ∀ {r : List String}, (∀ s ∈ r, isWord s.toList = true) →
      ∀ l ∈ segmentLexemes r, l.IsPlain ∧ ∀ c ∈ l.space, isBlank c = true := by
    intro r hr
    induction r with
    | nil => exact List.forall_mem_nil _
    | cons s r ih =>
      obtain ⟨hs, hr⟩ := List.forall_mem_cons.1 hr
      have hcolons : colons.IsPlain := ⟨.inr ⟨rfl, by decide⟩, by decide⟩
      exact List.forall_mem_cons.2 ⟨⟨hcolons, hnone⟩, List.forall_mem_cons.2 ⟨hofName hs hnone, ih hr⟩⟩
  refine List.forall_mem_append.2 ⟨?_, ?_⟩
  · cases path with
    | nil => exact List.forall_mem_nil _
    | cons s r =>
      obtain ⟨hs, hr⟩ := List.forall_mem_cons.1 hpath
      exact List.forall_mem_cons.2 ⟨hofName hs hblank, hsegments hr⟩
  · cases asName with
    | none => exact List.forall_mem_nil _
    | some a =>
      exact List.forall_mem_cons.2 ⟨hofName (by decide) hblank, List.forall_mem_singleton.2 (hofName (hname a rfl) hblank)⟩

/-- **An import** is found as a statement. -/
theorem finds_statement_use {path : List String} {asName : Option String} (hne : path ≠ [])
    (hpath : ∀ s ∈ path, isWord s.toList = true) (hname : ∀ s ∈ asName, isWord s.toList = true)
    (hn : (useLexemes space path asName).length + 8 < n) :
    Finds N (statement n true) (useLexemes space path asName ++ ls)
      (fun s => ∃ line, s = .use line (importTree path asName)) ls := by
  have hplain := isPlain_importLexemes hpath hname
  have hshape : useLexemes space path asName ++ ls =
      ofName space "use" :: ((pathLexemes [' '] path ++ renamingLexemes asName) ++ sign [] ';' :: ls) := by
    simp [useLexemes]
  have hlength : (pathLexemes [' '] path ++ renamingLexemes asName).length + 8 < n := by
    simp only [useLexemes, List.length_append, List.length_cons] at hn ⊢
    omega
  rw [hshape]
  exact finds_statement_useTree .none (List.forall_mem_nil _) (spells_importTree hne hpath hname [' '])
    (fun l hl => (hplain l hl).1) (fun l hl => (hplain l hl).2)
    ⟨.inr ⟨rfl, by decide⟩, by decide⟩ rfl hlength

/-! ## Inner attributes -/

/-- The lexemes of an inner attribute with one argument. -/
def attributeLexemes (space : List Char) (path arg : String) : List Lexeme :=
  [sign space '#', sign [] '!', sign [] '[', ofName [] path, sign [] '(', ofName [] arg, sign [] ')',
    sign [] ']']

/-- **An inner attribute** is found as a statement. -/
theorem finds_statement_attribute {path arg : String} (hpath : isWord path.toList = true)
    (harg : isWord arg.toList = true) (hn : 1 < n) :
    Finds N (statement n true) (attributeLexemes space path arg ++ ls)
      (fun s => s = .innerAttribute ("#![" ++ path ++ "(" ++ arg ++ ")]")) ls := by
  obtain ⟨n, rfl⟩ : ∃ k, n = k + 2 := ⟨n - 2, by omega⟩
  have hbracket : ∀ w ∈ brackets, isWord w.toList = false := by decide
  have hflat : IsFlat (ofName [] arg) :=
    isFlat_of_text_ne (.inl rfl) fun w hw => ne_of_isWord harg (hbracket w hw)
  have hgroup : ∀ ls, Reads N macroArguments (sign [] '(' :: ([ofName [] arg] ++ sign [] ')' :: ls)) ()
      ls := fun ls =>
    reads_group (by decide) (by simpa using hflat) ⟨rfl, rfl⟩ (by decide) (by decide)
  have hbody : ∀ ls, Reads N (attributeBody (n + 1)) (ofName [] path :: sign [] '(' :: ofName [] arg ::
      sign [] ')' :: sign [] ']' :: ls) () ls := by
    intro ls
    have hplain : ∀ r, Reads N (plainPath (n + 1)) (ofName [] path :: sign [] '(' :: r) ()
        (sign [] '(' :: r) := by
      intro r
      unfold plainPath
      refine reads_bind (reads_optional_of_ne rfl (ne_of_isWord hpath (by decide))) ?_
      refine reads_bind (reads_word rfl rfl) (reads_bind (reads_text rfl) ?_)
      exact reads_if_not (by simp) reads_pure
    unfold attributeBody
    refine reads_bind (hplain _) (reads_bind (reads_text rfl) (reads_if_not (by decide) ?_))
    exact reads_if (by decide) (reads_bind (hgroup _) (reads_expect rfl rfl))
  have htext : ∀ start : Cursor, start.total = N → start.lexemes = attributeLexemes space path arg ++ ls →
      Reads N (since start) ls ("#![" ++ path ++ "(" ++ arg ++ ")]") ls := by
    intro start hN hstart
    have hspanned : String.ofList (spanned (visible (attributeLexemes space path arg))) =
        "#![" ++ path ++ "(" ++ arg ++ ")]" := by
      rw [← String.toList_inj]
      simp [attributeLexemes, visible, sign, ofName, Lexeme.isComment, spanned]
    rw [← hspanned]
    exact reads_since hN hstart
  unfold statement
  refine finds_line fun line => finds_of_reads (reads_textPair rfl) (finds_if (by simp) ?_)
  refine finds_if (by rw [textAhead_of_visible rfl]; decide) (finds_of_reads ?_ (finds_pure rfl))
  unfold attributeText
  refine reads_get fun start hN hstart => reads_bind (reads_expect rfl rfl) ?_
  refine reads_if rfl (reads_bind (reads_expect rfl rfl) (reads_bind (reads_expect rfl rfl) ?_))
  exact reads_bind (hbody _) (htext start hN hstart)

end Statements

end ModelPool.Source
