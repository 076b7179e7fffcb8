import ModelPool.Proofs.Source.StatementReading

/-!
# Proofs/Source/ParameterReading — the parameters of a struct are read

    struct M<'a, T, 'b> { .. }      T

The parameters of a struct are kept by the names of its types; lifetimes are left out.  So a struct whose
parameters are all lifetimes is read as one without parameters.

* `reads_typeParameters?` — parameters in angle brackets.
* `finds_struct_bracketed` — a struct with parameters.
-/

namespace ModelPool.Source

open Text Lexeme Reader

/-! ## Parameters -/

/-- **A parameter of a declaration**, without bounds. -/
inductive Parameter where
  | lifetime (name : String)
  | type (name : String)

namespace Parameter

/-- The lexeme of a parameter. -/
def lexeme (space : List Char) : Parameter → Lexeme
  | lifetime name => .lifetime space name
  | type name => ofName space name

/-- The name that is kept of a parameter. -/
def typeName? : Parameter → Option String
  | lifetime _ => none
  | type name => some name

/-- The name of a type is a word, and none that begins a parameter of another kind. -/
def IsPlain : Parameter → Prop
  | lifetime _ => True
  | type name => isWord name.toList = true ∧ name ≠ "const"

/-- The lexemes of parameters behind the first one. -/
def tailLexemes (ps : List Parameter) : List Lexeme :=
  ps.flatMap fun p => [sign [] ',', p.lexeme [' ']]

/-- **The lexemes of parameters** in angle brackets. -/
def bracketedLexemes (p : Parameter) (ps : List Parameter) : List Lexeme :=
  sign [] '<' :: p.lexeme [] :: (tailLexemes ps ++ [sign [] '>'])

variable {p : Parameter}

theorem visible_lexeme (space : List Char) (p : Parameter) (ls : List Lexeme) :
    visible (p.lexeme space :: ls) = p.lexeme space :: ls := by
  cases p <;> exact visible_cons rfl ls

/-- A lifetime begins with its quote. -/
theorem lifetime_text_ne {space : List Char} {name s : String} (h : s.toList.head? ≠ some '\'') :
    (Lexeme.lifetime space name).text ≠ s := by
  rintro rfl
  exact h (by simp [Lexeme.lifetime])

theorem IsPlain.text_ne (hp : p.IsPlain) (space : List Char) {s : String} (hs : isWord s.toList = false)
    (hquote : s.toList.head? ≠ some '\'') : (p.lexeme space).text ≠ s := by
  cases p with
  | lifetime name => exact lifetime_text_ne hquote
  | type name => exact ne_of_isWord hp.1 hs

end Parameter

namespace Reader

open Parameter

variable {N n : Nat} {ls : List Lexeme} {p : Parameter} {ps : List Parameter}

theorem reads_skipAttributes {l : Lexeme} {r : List Lexeme} (hl : visible ls = l :: r)
    (htext : l.text ≠ "#") : Reads N (skipAttributes (n + 1)) ls () ls := by
  unfold skipAttributes
  exact reads_bind (reads_text hl) (reads_if_not (by simpa using htext) reads_pure)

/-- **A parameter is read** before the comma or the bracket behind it. -/
theorem reads_typeParameter (hp : p.IsPlain) {space : List Char} {next : Lexeme} {r : List Lexeme}
    (hl : visible ls = next :: r) (hcolon : next.text ≠ ":") (hequals : next.text ≠ "=") :
    Reads N (typeParameter (n + 2)) (p.lexeme space :: ls) p.typeName?.toList ls := by
  have hvisible := visible_lexeme space p ls
  have hcolon' : ¬ (next.text == ":") = true := by simpa using hcolon
  unfold typeParameter
  refine reads_bind (reads_skipAttributes hvisible (hp.text_ne space (by decide) (by decide))) ?_
  cases p with
  | lifetime name =>
    refine reads_bind (reads_take?_of_ne hvisible (by simp [Parameter.lexeme, Lexeme.lifetime])) ?_
    refine reads_if_not (by decide) (reads_bind (reads_take? hvisible rfl) (reads_if rfl ?_))
    exact reads_bind (reads_text hl) (reads_if_not hcolon' reads_pure)
  | type name =>
    refine reads_bind (reads_take?_of_ne hvisible (by simp [Parameter.lexeme, ofName])) ?_
    refine reads_if_not (by decide) ?_
    refine reads_bind (reads_take?_of_ne hvisible (by simp [Parameter.lexeme, ofName])) ?_
    refine reads_if_not (by decide) (reads_bind (reads_text hvisible) ?_)
    refine reads_if_not (by simpa [Parameter.lexeme, ofName] using hp.2) ?_
    refine reads_get fun start hN hstart => ?_
    refine reads_bind (reads_word hvisible rfl) (reads_bind (reads_text hl) (reads_if_not hcolon' ?_))
    have hsince := @reads_since N ls start [ofName space name] hN hstart
    unfold trimmedSince
    refine reads_bind (reads_bind hsince reads_pure) (reads_bind (reads_optional_of_ne hl hequals) ?_)
    exact reads_if_not (by decide) reads_pure

/-- Parameters with commas between them are read up to the closing bracket. -/
theorem reads_entries_parameters {space : List Char} (hps : ∀ q ∈ p :: ps, q.IsPlain)
    (hn : ps.length < n) (k : Nat) :
    Reads N (entries ">" (typeParameter (k + 2)) n)
      (p.lexeme space :: (tailLexemes ps ++ sign [] '>' :: ls))
      ((p :: ps).map fun q => q.typeName?.toList) (sign [] '>' :: ls) := by
  induction ps generalizing p n space with
  | nil =>
    obtain ⟨n, rfl⟩ := Nat.exists_eq_add_one_of_ne_zero (Nat.ne_zero_of_lt hn)
    have hp := hps p List.mem_cons_self
    unfold entries
    refine reads_bind (reads_closes (visible_lexeme _ _ _)) (reads_if_not ?_ ?_)
    · simpa using hp.text_ne space (by decide) (by decide)
    refine reads_bind (reads_typeParameter hp rfl (by decide) (by decide)) ?_
    exact reads_bind (reads_optional_of_ne rfl (by decide)) (reads_if_not (by decide) reads_pure)
  | cons q ps ih =>
    obtain ⟨n, rfl⟩ := Nat.exists_eq_add_one_of_ne_zero (Nat.ne_zero_of_lt hn)
    have hp := hps p List.mem_cons_self
    have hrest := @ih n q [' '] (fun x hx => hps x (List.mem_cons_of_mem _ hx)) (Nat.lt_of_succ_lt_succ hn)
    unfold entries
    refine reads_bind (reads_closes (visible_lexeme _ _ _)) (reads_if_not ?_ ?_)
    · simpa using hp.text_ne space (by decide) (by decide)
    refine reads_bind (reads_typeParameter hp rfl (by decide) (by decide)) ?_
    exact reads_bind (reads_optional rfl rfl) (reads_if rfl (reads_bind hrest reads_pure))

/-- **Parameters in angle brackets are kept by the names of their types.** -/
theorem reads_typeParameters? (hps : ∀ q ∈ p :: ps, q.IsPlain) (hn : ps.length + 2 < n) :
    Reads N (typeParameters? n) (bracketedLexemes p ps ++ ls) ((p :: ps).filterMap typeName?) ls := by
  obtain ⟨k, rfl⟩ : ∃ k, n = k + 3 := Nat.exists_eq_add_of_le' (by omega)
  have hlist : Reads N (list1 ">" (k + 2) (typeParameter (k + 2)))
      (p.lexeme [] :: (tailLexemes ps ++ sign [] '>' :: ls)) ((p :: ps).map fun q => q.typeName?.toList)
      ls := by
    unfold list1
    exact reads_bind (reads_entries_parameters hps (by omega) k)
      (reads_bind (reads_expect rfl rfl) reads_pure)
  rw [bracketedLexemes, List.cons_append, List.cons_append, List.append_assoc,
    List.filterMap_eq_flatMap_toList, List.flatMap_def]
  unfold typeParameters?
  refine reads_bind (reads_text rfl) (reads_if rfl ?_)
  unfold typeParameters
  exact reads_bind (reads_expect rfl rfl) (reads_bind hlist reads_pure)

/-- **A struct with parameters is found**, with the names of those that are types. -/
theorem finds_struct_bracketed {space : List Char} {name : String}
    {fs : List (String × TypeExpr × List String)} {indent : List Char} {h : Heading}
    (hps : ∀ q ∈ p :: ps, q.IsPlain) (hfs : ∀ f ∈ fs, IsWritten f) (hlength : ps.length + 2 < n)
    (hn : 8 * (fs.flatMap (fieldLexemes indent)).length < n) :
    Finds N (struct n h)
      (ofName space "struct" :: ofName [' '] name :: (bracketedLexemes p ps ++ sign [' '] '\x7b' ::
        (fs.flatMap (fieldLexemes indent) ++ sign ['\n'] '\x7d' :: ls)))
      (fun s => ∃ gs : List Field, gs.map Field.content = fs ∧
        s = h.item name ((p :: ps).filterMap typeName?) (.struct (.named gs))) ls :=
  finds_struct_of_parameters (fun _ => reads_typeParameters? hps hlength) hfs hn

end Reader

end ModelPool.Source
