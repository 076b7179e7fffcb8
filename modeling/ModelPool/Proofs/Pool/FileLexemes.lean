import ModelPool.Pool.Emit
import ModelPool.Proofs.Source.UnitReading

/-!
# Proofs/Pool/FileLexemes — the lexemes of a pool's files

Each part of a generated file is put together from lexemes: the header with the name of the package, the
imports, the documentation, the struct and its constants.  Their print is the text of the part, and the
lexer cuts them apart again.

* `print_modelLexemes`, `IsPlain.legible` — the file of a model.
* `print_registryLexemes`, `legible_registryLexemes` — the registry.
-/

namespace ModelPool

open Text Source Lexeme TypeExpr

namespace Emitter

/-! ## Headers -/

/-- The two comments at the head of every file. -/
def headerLexemes : List Lexeme :=
  [⟨.comment, [], "// This file is autogenerated by poolgen"⟩,
    ⟨.comment, ['\n'], "// DO NOT MODIFY THIS FILE - ANY CHANGES WILL BE OVERWRITTEN"⟩]

/-- The lexemes of the first lines of a file. -/
def preambleLexemes (packageName : String) : List Lexeme :=
  headerLexemes ++ attributeLexemes ['\n'] packageAttribute packageName

theorem print_headerLexemes : print headerLexemes ++ ['\n'] = generatedHeader.toList := by
  -- a literal is the text of its characters, and so none of them has to be looked for in it
  delta generatedHeader headerLexemes
  rw [print_cons, print_cons, print_nil, String.toList_append]
  dsimp only
  iterate 4 rw [String.toList_ofList]
  rfl

theorem print_preambleLexemes (packageName : String) :
    print (preambleLexemes packageName) ++ ['\n'] = (preamble packageName).toList := by
  have hopen : "#![package(".toList = ['#', '!', '['] ++ packageAttribute.toList ++ ['('] := rfl
  have hclose : ")]\n".toList = [')', ']', '\n'] := rfl
  rw [preamble, String.toList_append, String.toList_append, String.toList_append,
    ← print_headerLexemes, hopen, hclose, preambleLexemes, print_append]
  simp [attributeLexemes, sign, ofName]

theorem legible_preambleLexemes {packageName : String} (h : isWord packageName.toList = true)
    (rest : List Char) : Legible (preambleLexemes packageName) rest := by
  have hfirst : ∀ cs, Before ⟨.comment, [], "// This file is autogenerated by poolgen"⟩ ('\n' :: cs) :=
    before_comment rfl (by decide)
  have hsecond : ∀ cs, Before ⟨.comment, ['\n'],
      "// DO NOT MODIFY THIS FILE - ANY CHANGES WILL BE OVERWRITTEN"⟩ ('\n' :: cs) :=
    before_comment rfl (by decide)
  refine ⟨hfirst _, hsecond _, before_sign rfl (by decide) _, before_sign rfl (by decide) _,
    before_sign rfl (by decide) _, before_word rfl (by decide) (endsWord_cons (by decide) _),
    before_sign rfl (by decide) _, before_word rfl h (endsWord_cons (by decide) _),
    before_sign rfl (by decide) _, before_sign rfl (by decide) _, trivial⟩

/-! ## Imports -/

/-- **A path that can be imported**: words with `::` between them. -/
def IsImportPath (package : String) : Prop :=
  pathText (splitPath package) = package ∧ splitPath package ≠ [] ∧
    ∀ s ∈ splitPath package, isWord s.toList = true

instance (package : String) : Decidable (IsImportPath package) :=
  inferInstanceAs (Decidable (_ ∧ _ ∧ _))

/-- The new name under which a package is imported, if it gets one. -/
def newName? (e : Emitter) (package : String) : Option String :=
  if e.aliasOf package = lastSegment package then none else some (e.aliasOf package)

/-- The lexemes of the imports of packages, each on a line of its own. -/
def importLexemes (e : Emitter) (space : List Char) : List String → List Lexeme
  | [] => []
  | package :: r =>
    useLexemes space (splitPath package) (e.newName? package) ++ e.importLexemes ['\n'] r

theorem print_useLexemes (e : Emitter) {package : String} (h : IsImportPath package) (space : List Char) :
    print (useLexemes space (splitPath package) (e.newName? package)) ++ ['\n'] =
      space ++ (e.useLine package).toList := by
  obtain ⟨htext, hne, -⟩ := h
  have huse : "use ".toList = ['u', 's', 'e', ' '] := rfl
  have has : " as ".toList = [' ', 'a', 's', ' '] := rfl
  have hend : ";\n".toList = [';', '\n'] := rfl
  rw [useLexemes, print_cons, print_append, print_pathLexemes _ hne, htext, useLine, newName?]
  split <;> simp [renamingLexemes, ofName, sign, huse, has, hend]

theorem print_importLexemes (e : Emitter) {packages : List String} (h : ∀ p ∈ packages, IsImportPath p)
    (hne : packages ≠ []) (space : List Char) :
    print (e.importLexemes space packages) ++ ['\n'] =
      space ++ (String.join (packages.map e.useLine)).toList := by
  induction packages generalizing space with
  | nil => exact absurd rfl hne
  | cons package r ih =>
    obtain ⟨hpackage, hr⟩ := List.forall_mem_cons.1 h
    have hfirst := print_useLexemes e hpackage space
    have hrest : print (e.importLexemes ['\n'] r) ++ ['\n'] =
        '\n' :: (String.join (r.map e.useLine)).toList := by
      cases r with
      | nil => rfl
      | cons p r => exact ih hr (by simp) ['\n']
    rw [importLexemes, print_append, List.append_assoc, hrest, ← List.singleton_append,
      ← List.append_assoc, hfirst, List.map_cons, String.join_cons, String.toList_append,
      List.append_assoc]

/-- The imports of a file with the empty line before them. -/
theorem print_useLines (e : Emitter) {packages : List String} (h : ∀ p ∈ packages, IsImportPath p) :
    print (e.importLexemes ['\n', '\n'] packages) ++ ['\n'] = '\n' :: (e.useLines packages).toList := by
  unfold useLines
  split
  · rfl
  · next hne =>
    rw [print_importLexemes e h hne, String.toList_append]
    rfl

theorem legible_useLexemes {space : List Char} {path : List String} {newName : Option String}
    (hspace : space.all isSpace = true) (hpath : ∀ s ∈ path, isWord s.toList = true)
    (hne : path ≠ []) (hname : ∀ a ∈ newName, isWord a.toList = true) (rest : List Char) :
    Legible (useLexemes space path newName) rest := by
  have hrename : Legible (renamingLexemes newName ++ [sign [] ';']) rest ∧
      EndsWord (print (renamingLexemes newName ++ [sign [] ';']) ++ rest) := by
    cases newName with
    | none => exact ⟨⟨before_sign rfl (by decide) _, trivial⟩, endsWord_cons (by decide) _⟩
    | some a =>
      refine ⟨⟨before_word rfl (by decide) (endsWord_cons (by decide) _),
        before_word rfl (hname a rfl) (endsWord_cons (by decide) _), before_sign rfl (by decide) _,
        trivial⟩, endsWord_cons (by decide) _⟩
  have huse : EndsWord (print (pathLexemes [' '] path ++ (renamingLexemes newName ++ [sign [] ';'])) ++
      rest) := by
    rw [print_append, print_pathLexemes _ hne]
    exact endsWord_cons (by decide) _
  exact ⟨before_word hspace (by decide) huse,
    legible_append.2 ⟨legible_pathLexemes rfl hpath hrename.2, hrename.1⟩⟩

theorem legible_importLexemes (e : Emitter) {space : List Char} {packages : List String}
    (hspace : space.all isSpace = true) (h : ∀ p ∈ packages, IsImportPath p)
    (hname : ∀ p ∈ packages, ∀ a ∈ e.newName? p, isWord a.toList = true) (rest : List Char) :
    Legible (e.importLexemes space packages) rest := by
  induction packages generalizing space with
  | nil => exact trivial
  | cons package r ih =>
    obtain ⟨⟨-, hne, hwords⟩, hr⟩ := List.forall_mem_cons.1 h
    obtain ⟨hfirst, hnames⟩ := List.forall_mem_cons.1 hname
    exact legible_append.2 ⟨legible_useLexemes hspace hwords hne hfirst _, ih rfl hr hnames⟩

/-! ## Structs -/

/-- The documentation of a model as it is written. -/
def writtenDocs (m : MergedModel) : List String :=
  m.docs ++ (if m.docs.isEmpty then [] else [""]) ++
    ["Merged from: " ++ ", ".intercalate (m.packages.map marked)]

theorem docLine_eq (indent line : String) : docLine indent line = indent ++ docText line := by
  simp only [docLine, docText, String.append_assoc]

theorem toList_join_docLines (indent : String) (docs : List String) :
    (String.join (docs.map (docLine indent))).toList =
      docs.flatMap fun line => indent.toList ++ (docText line).toList := by
  induction docs with
  | nil => rfl
  | cons line r ih =>
    rw [List.map_cons, String.join_cons, String.toList_append, ih, docLine_eq, String.toList_append]
    rfl

theorem modelDocs_eq (m : MergedModel) :
    modelDocs m = String.join ((writtenDocs m).map (docLine "")) := by
  have happend : ∀ first second : List String,
      String.join (first ++ second) = String.join first ++ String.join second := by
    intro first second
    induction first with
    | nil => simp [String.join_nil]
    | cons s r ih => simp [String.join_cons, ih, String.append_assoc]
  rw [modelDocs, writtenDocs, List.map_append, List.map_append, happend, happend]
  congr 2
  split <;> simp [String.join_cons]

/-- The blanks before a line inside a body. -/
def bodyIndent : List Char := [' ', ' ', ' ', ' ']

/-- The lexemes of a struct with its fields. -/
def structLexemes (space : List Char) (name : String) (fs : List (String × TypeExpr × List String)) :
    List Lexeme :=
  ofName space "pub" :: ofName [' '] "struct" :: ofName [' '] name :: sign [' '] '\x7b' ::
    (fs.flatMap (fieldLexemes bodyIndent) ++ [sign ['\n'] '\x7d'])

theorem print_fieldLexemes {f : MergedField} {t : TypeExpr} (ht : t.isStructured = true) :
    print (fieldLexemes bodyIndent (f.name, t, f.docs)) ++ ['\n'] =
      '\n' :: (fieldLines f t.text).toList := by
  have hdocs := print_docLexemes ['\n'] bodyIndent f.docs
  have hindent : "    ".toList = bodyIndent := rfl
  have hpub : "    pub ".toList = bodyIndent ++ "pub".toList ++ [' '] := rfl
  have hend : ",\n".toList = [',', '\n'] := rfl
  have hcolon : ": ".toList = [':', ' '] := rfl
  rw [fieldLines, fieldLexemes]
  simp only [String.toList_append, toList_join_docLines, hindent, hpub, hend, hcolon]
  simp only [print_append, print_cons, print_nil, print_typeLexemes (isReadable_of_isStructured ht), text_ofName, text_sign]
  have hbehind : ∀ cs : List Char, print (docLexemes ('\n' :: bodyIndent) bodyIndent f.docs) ++
      (behindDocs ('\n' :: bodyIndent) bodyIndent f.docs ++ cs) =
        '\n' :: (f.docs.flatMap fun line => bodyIndent ++ (docText line).toList) ++ bodyIndent ++ cs := by
    intro cs
    rw [← List.append_assoc, ← List.singleton_append, hdocs]
    rfl
  simp only [ofName, sign, List.append_assoc, hbehind]
  simp

/-- The content of a written field: its name, its type and its documentation. -/
def written (f : MergedField × TypeExpr) : String × TypeExpr × List String :=
  (f.1.name, f.2, f.1.docs)

theorem print_structLexemes {m : MergedModel} {fs : List (MergedField × TypeExpr)}
    (hfs : ∀ f ∈ fs, f.2.isStructured = true) :
    print (structLexemes [] m.name (fs.map written)) ++ ['\n'] =
      (structLines m (fs.map fun f => (f.1, f.2.text))).toList := by
  have hfields : print ((fs.map written).flatMap (fieldLexemes bodyIndent)) ++ ['\n'] =
      '\n' :: (String.join (fs.map fun f => fieldLines f.1 f.2.text)).toList := by
    induction fs with
    | nil => rfl
    | cons f r ih =>
      obtain ⟨hf, hr⟩ := List.forall_mem_cons.1 hfs
      have hfirst := @print_fieldLexemes f.1 f.2 hf
      rw [List.map_cons, List.flatMap_cons, print_append, List.append_assoc, ih hr,
        ← List.singleton_append, ← List.append_assoc, written, hfirst, List.map_cons,
        String.join_cons, String.toList_append]
      rfl
  have hopen : "pub struct ".toList = "pub".toList ++ [' '] ++ "struct".toList ++ [' '] := rfl
  have hbrace : " \x7b\n".toList = [' ', '\x7b', '\n'] := rfl
  have hend : "\x7d\n".toList = ['\x7d', '\n'] := rfl
  have hlines : structLines m (fs.map fun f => (f.1, f.2.text)) = "pub struct " ++ m.name ++ " \x7b\n" ++
      String.join (fs.map fun f => fieldLines f.1 f.2.text) ++ "\x7d\n" := by
    delta structLines
    rw [List.map_map]
    rfl
  rw [hlines]
  simp only [String.toList_append, hopen, hbrace, hend]
  rw [structLexemes]
  simp only [print_append, print_cons, print_nil, ofName, sign]
  have hbody : ∀ cs : List Char, print ((fs.map written).flatMap (fieldLexemes bodyIndent)) ++
      ('\n' :: cs) = '\n' :: (String.join (fs.map fun f => fieldLines f.1 f.2.text)).toList ++ cs := by
    intro cs
    rw [← List.singleton_append, ← List.append_assoc, hfields]
  simp [hbody]

/-! ## Constants -/

/-- The lexeme of a name in quotes. -/
def quoted (space : List Char) (name : String) : Lexeme := ⟨.text, space, "\"" ++ name ++ "\""⟩

/-- The lexemes of names in quotes with commas between them. -/
def quotedLexemes : List String → List Lexeme
  | [] => []
  | name :: r => quoted [] name :: r.flatMap fun name => [sign [] ',', quoted [' '] name]

/-- The lexemes of a reference to a list of names in quotes. -/
def namesLexemes (names : List String) : List Lexeme :=
  sign [' '] '&' :: sign [] '[' :: (quotedLexemes names ++ [sign [] ']'])

theorem print_namesLexemes (names : List String) :
    print (namesLexemes names) = [' ', '&', '['] ++ (quotedList names).toList ++ [']'] := by
  have hquoted : print (quotedLexemes names) = (quotedList names).toList := by
    cases names with
    | nil => simp [quotedLexemes, quotedList]
    | cons name r =>
      have hrest : print (r.flatMap fun name => [sign [] ',', quoted [' '] name]) =
          (r.map fun n => "\"" ++ n ++ "\"").flatMap fun s => ',' :: ' ' :: s.toList := by
        induction r with
        | nil => rfl
        | cons name r ih =>
          rw [List.flatMap_cons, print_append, ih]
          simp [quoted, sign]
      rw [quotedLexemes, print_cons, hrest, quotedList, List.map_cons, toList_intercalate_cons]
      rfl
  simp [namesLexemes, sign, hquoted]

/-- The type of a text that is never dropped. -/
def staticText : TypeExpr := .reference (some "static") false (.path ["str"] [])

/-- The constant with the name of a model. -/
def modelNameConst (name : String) : WrittenConst where
  comments := docLexemes ('\n' :: bodyIndent) bodyIndent ["Name of the model"]
  space := bodyIndent
  name := "MODEL_NAME"
  type := staticText
  value := [quoted [' '] name]

/-- The constant with the names of the fields. -/
def fieldNamesConst (names : List String) : WrittenConst where
  comments := docLexemes ('\n' :: '\n' :: bodyIndent) bodyIndent
    ["Names of the merged fields, in declaration order"]
  space := bodyIndent
  name := "FIELD_NAMES"
  type := .reference (some "static") false (.slice staticText)
  value := namesLexemes names

/-- The constant with the names of all models. -/
def modelNamesConst (names : List String) : WrittenConst where
  comments := docLexemes ['\n', '\n'] [] ["Every model of the pool, in merge order"]
  space := []
  name := "MODEL_NAMES"
  type := .reference none false (.slice (.reference none false (.path ["str"] [])))
  value := namesLexemes names

theorem isStructured_staticText : staticText.isStructured = true := by decide

theorem isStructured_fieldNames : (fieldNamesConst []).type.isStructured = true := by decide

theorem isStructured_modelNames : (modelNamesConst []).type.isStructured = true := by decide

/-- The lexemes of a constant up to its value. -/
def frontLexemes (c : WrittenConst) : List Lexeme :=
  c.comments ++ ofName c.space "pub" :: ofName [' '] "const" :: ofName [' '] c.name :: sign [] ':' ::
    (typeLexemes [' '] c.type ++ [sign [' '] '='])

theorem print_lexemes_const (c : WrittenConst) :
    print c.lexemes = print (frontLexemes c) ++ print c.value ++ [';'] := by
  simp [WrittenConst.lexemes, constLexemes, frontLexemes, sign]

theorem print_modelNameConst (name : String) :
    print (modelNameConst name).lexemes = '\n' :: ("    /// Name of the model\n" ++
      "    pub const MODEL_NAME: &'static str = \"").toList ++ name.toList ++ ['"', ';'] := by
  have hfront : print (frontLexemes (modelNameConst "")) ++ [' ', '"'] =
      '\n' :: ("    /// Name of the model\n" ++
        "    pub const MODEL_NAME: &'static str = \"").toList := by
    rw [String.toList_append, String.toList_ofList, String.toList_ofList]
    decide +kernel
  have hsame : frontLexemes (modelNameConst name) = frontLexemes (modelNameConst "") := rfl
  rw [print_lexemes_const, ← hfront, hsame]
  simp [modelNameConst, quoted]

theorem print_fieldNamesConst (names : List String) :
    print (fieldNamesConst names).lexemes = '\n' :: '\n' ::
      ("    /// Names of the merged fields, in declaration order\n" ++
        "    pub const FIELD_NAMES: &'static [&'static str] = &[").toList ++
      (quotedList names).toList ++ [']', ';'] := by
  have hfront : print (frontLexemes (fieldNamesConst [])) ++ [' ', '&', '['] =
      '\n' :: '\n' :: ("    /// Names of the merged fields, in declaration order\n" ++
        "    pub const FIELD_NAMES: &'static [&'static str] = &[").toList := by
    rw [String.toList_append, String.toList_ofList, String.toList_ofList]
    decide +kernel
  have hsame : frontLexemes (fieldNamesConst names) = frontLexemes (fieldNamesConst []) := rfl
  have hvalue : (fieldNamesConst names).value = namesLexemes names := rfl
  rw [print_lexemes_const, ← hfront, hsame, hvalue, print_namesLexemes]
  simp

theorem print_modelNamesConst (names : List String) :
    print (modelNamesConst names).lexemes = '\n' ::
      ("\n/// Every model of the pool, in merge order\n" ++
        "pub const MODEL_NAMES: &[&str] = &[").toList ++ (quotedList names).toList ++ [']', ';'] := by
  have hfront : print (frontLexemes (modelNamesConst [])) ++ [' ', '&', '['] =
      '\n' :: ("\n/// Every model of the pool, in merge order\n" ++
        "pub const MODEL_NAMES: &[&str] = &[").toList := by
    rw [String.toList_append, String.toList_ofList, String.toList_ofList]
    decide +kernel
  have hsame : frontLexemes (modelNamesConst names) = frontLexemes (modelNamesConst []) := rfl
  have hvalue : (modelNamesConst names).value = namesLexemes names := rfl
  rw [print_lexemes_const, ← hfront, hsame, hvalue, print_namesLexemes]
  simp

/-- The lexemes of a block with the constants of a model. -/
def implLexemes (m : MergedModel) : List Lexeme :=
  ofName ['\n', '\n'] "impl" :: ofName [' '] m.name :: sign [' '] '\x7b' ::
    ([modelNameConst m.name, fieldNamesConst (m.fields.map fun f => plainFieldName f.name)].flatMap
      WrittenConst.lexemes ++ [sign ['\n'] '\x7d'])

theorem print_implLexemes (m : MergedModel) :
    print (implLexemes m) ++ ['\n'] = '\n' :: '\n' :: (implLines m).toList := by
  have himpl : "impl ".toList = "impl".toList ++ [' '] := rfl
  have hbrace : " \x7b\n".toList = [' ', '\x7b', '\n'] := rfl
  have hnext : "\";\n\n".toList = ['"', ';', '\n', '\n'] := rfl
  have hend : "];\n\x7d\n".toList = [']', ';', '\n', '\x7d', '\n'] := rfl
  -- the equation of a definition with long texts is slow to derive
  delta implLines
  rw [implLexemes]
  simp only [List.flatMap_cons, List.flatMap_nil, print_append, print_cons, print_nil,
    print_modelNameConst, print_fieldNamesConst, String.toList_append, himpl, hbrace, hnext, hend,
    ofName, sign]
  simp only [List.append_assoc, List.cons_append, List.nil_append, List.append_nil,
    String.toList_singleton]

/-! ## Files -/

/-- The packages that the file of a model imports. -/
def importedPackages (e : Emitter) (m : MergedModel) : List String :=
  outsidePackages e.pool (m.fields.map MergedField.type)

/-- The lexemes of a model's file, given its fields with their written types. -/
def modelLexemes (e : Emitter) (m : MergedModel) (fs : List (MergedField × TypeExpr)) : List Lexeme :=
  preambleLexemes e.poolName ++ (e.importLexemes ['\n', '\n'] (e.importedPackages m) ++
    (docLexemes ['\n', '\n'] [] (writtenDocs m) ++
      (structLexemes [] m.name (fs.map written) ++ implLexemes m)))

/-- The lexemes of the registry. -/
def registryLexemes (e : Emitter) : List Lexeme :=
  preambleLexemes e.poolName ++ (modelNamesConst (e.models.map MergedModel.name)).lexemes

theorem print_writtenDocs (m : MergedModel) :
    print (docLexemes ['\n', '\n'] [] (writtenDocs m)) = '\n' :: '\n' :: (modelDocs m).toList := by
  have hdocs := print_docLexemes ['\n', '\n'] [] (writtenDocs m)
  have hbehind : behindDocs (['\n', '\n'] ++ []) [] (writtenDocs m) = [] := by
    simp [behindDocs, writtenDocs]
  rw [hbehind] at hdocs
  rw [modelDocs_eq, toList_join_docLines]
  simpa using hdocs

/-- **The lexemes of a model's file are its text.** -/
theorem print_modelLexemes (e : Emitter) {m : MergedModel} {fs : List (MergedField × TypeExpr)}
    (hpackages : ∀ p ∈ e.importedPackages m, IsImportPath p)
    (hfs : ∀ f ∈ fs, f.2.isStructured = true) :
    print (e.modelLexemes m fs) ++ ['\n'] =
      (preamble e.poolName ++ e.useLines (e.importedPackages m) ++ "\n" ++ modelDocs m ++
        structLines m (fs.map fun f => (f.1, f.2.text)) ++ "\n" ++ implLines m).toList := by
  have hline : "\n".toList = ['\n'] := rfl
  have huse : ∀ cs, print (e.importLexemes ['\n', '\n'] (e.importedPackages m)) ++ '\n' :: cs =
      '\n' :: (e.useLines (e.importedPackages m)).toList ++ cs := by
    intro cs
    rw [← print_useLines e hpackages]
    simp
  simp only [String.toList_append, hline, ← print_preambleLexemes, ← print_structLexemes hfs]
  rw [modelLexemes]
  simp only [print_append, print_writtenDocs, List.append_assoc, print_implLexemes, List.cons_append,
    List.nil_append, huse]

/-- **The lexemes of the registry are its text.** -/
theorem print_registryLexemes (e : Emitter) :
    print e.registryLexemes ++ ['\n'] = e.registry.toList := by
  have hline : ∀ cs : List Char, print (preambleLexemes e.poolName) ++ '\n' :: cs =
      (preamble e.poolName).toList ++ cs := by
    intro cs
    rw [← print_preambleLexemes]
    simp
  have hend : "];\n".toList = [']', ';', '\n'] := rfl
  rw [registryLexemes, print_append, print_modelNamesConst, registry]
  simp only [String.toList_append, List.append_assoc, List.cons_append, hline, hend, List.nil_append]

/-! ## Their cut -/

theorem legible_structLexemes {space rest : List Char} {name : String}
    {fs : List (String × TypeExpr × List String)} (hspace : space.all isSpace = true)
    (hname : isWord name.toList = true) (hfs : ∀ f ∈ fs, IsWritten f) :
    Legible (structLexemes space name fs) rest := by
  have hfields : Legible (fs.flatMap (fieldLexemes bodyIndent)) ('\n' :: '\x7d' :: rest) := by
    generalize '\n' :: '\x7d' :: rest = rest
    induction fs generalizing rest with
    | nil => exact trivial
    | cons f r ih =>
      obtain ⟨hf, hr⟩ := List.forall_mem_cons.1 hfs
      have hindent : (behindDocs ('\n' :: bodyIndent) bodyIndent f.2.2).all isSpace = true := by
        unfold behindDocs
        split <;> decide
      have htype : EndsWord (print (typeLexemes [' '] f.2.1 ++ [sign [] ',']) ++
          (print (r.flatMap (fieldLexemes bodyIndent)) ++ rest)) := by
        rw [print_append, print_typeLexemes (isReadable_of_isStructured hf.type)]
        exact endsWord_cons (by decide) _
      rw [List.flatMap_cons]
      refine legible_append.2 ⟨?_, ih hr _⟩
      refine legible_append.2 ⟨legible_docLexemes (by decide) (by decide) hf.docs _, ?_⟩
      refine ⟨before_word hindent (by decide) (endsWord_cons (by decide) _),
        before_word rfl hf.name (endsWord_cons (by decide) _), before_openSign rfl (.inl rfl) ?_,
        legible_append.2 ⟨legible_typeLexemes (isReadable_of_isStructured hf.type) rfl (endsWord_cons (by decide) _),
          before_sign rfl (by decide) _, trivial⟩⟩
      rw [print_append, print_typeLexemes (isReadable_of_isStructured hf.type)]
      simp
  refine ⟨before_word hspace (by decide) (endsWord_cons (by decide) _),
    before_word rfl (by decide) (endsWord_cons (by decide) _),
    before_word rfl hname (endsWord_cons (by decide) _), before_sign rfl (by decide) _,
    legible_append.2 ⟨hfields, before_sign (by decide) (by decide) _, trivial⟩⟩

/-- A name that can stand in quotes as it is. -/
def IsQuotable (name : String) : Prop := ∀ c ∈ name.toList, c ≠ '"' ∧ c ≠ '\\'

theorem isQuotable_of_isWord {name : String} (h : isWord name.toList = true) : IsQuotable name := by
  intro c hc
  refine ⟨?_, ?_⟩ <;> rintro rfl <;> exact not_mem_of_isWord h (by decide) (by decide) hc

theorem legible_quoted {name : String} (h : IsQuotable name) {space : List Char}
    (hspace : space.all isSpace = true) (rest : List Char) : Before (quoted space name) rest := by
  have htext : "\"" ++ name ++ "\"" = String.ofList ('"' :: name.toList ++ ['"']) := by
    rw [← String.toList_inj]
    simp
  rw [quoted, htext]
  exact before_text hspace h rest

theorem legible_namesLexemes {names : List String} (h : ∀ n ∈ names, IsQuotable n) (rest : List Char) :
    Legible (namesLexemes names) rest := by
  have hquoted : ∀ rest, Legible (quotedLexemes names) rest := by
    intro rest
    cases names with
    | nil => exact trivial
    | cons name r =>
      obtain ⟨hname, hr⟩ := List.forall_mem_cons.1 h
      refine ⟨legible_quoted hname rfl _, ?_⟩
      clear h
      induction r with
      | nil => exact trivial
      | cons n r ih =>
        obtain ⟨hn, hr⟩ := List.forall_mem_cons.1 hr
        exact ⟨before_sign rfl (by decide) _, legible_quoted hn rfl _, ih hr⟩
  exact ⟨before_sign rfl (by decide) _, before_sign rfl (by decide) _,
    legible_append.2 ⟨hquoted _, before_sign rfl (by decide) _, trivial⟩⟩

theorem legible_const {c : WrittenConst} {rest : List Char} (hcomments : ∀ rest, Legible c.comments rest)
    (hspace : c.space.all isSpace = true) (hname : isWord c.name.toList = true)
    (htype : c.type.isStructured = true) (hvalue : ∀ rest, Legible c.value rest)
    (hblank : ∀ l ∈ c.value.head?, l.space = [' ']) (hne : c.value ≠ []) : Legible c.lexemes rest := by
  obtain ⟨l, r, hl⟩ := List.exists_cons_of_ne_nil hne
  have hspaced : ∀ cs, print c.value ++ cs = ' ' :: (l.text.toList ++ (print r ++ cs)) := by
    intro cs
    rw [hl, print_cons, hblank l (by simp [hl])]
    simp
  refine legible_append.2 ⟨hcomments _, ?_⟩
  refine ⟨before_word hspace (by decide) (endsWord_cons (by decide) _),
    before_word rfl (by decide) (endsWord_cons (by decide) _),
    before_word rfl hname (endsWord_cons (by decide) _), before_openSign rfl (.inl rfl) ?_,
    legible_append.2 ⟨legible_typeLexemes (isReadable_of_isStructured htype) rfl (endsWord_cons (by decide) _),
      before_openSign rfl (.inr rfl) ?_, legible_append.2 ⟨hvalue _, before_sign rfl (by decide) _,
        trivial⟩⟩⟩
  · rw [print_append, print_typeLexemes (isReadable_of_isStructured htype)]
    simp
  · rw [print_append, List.append_assoc, hspaced]
    simp

theorem legible_modelNameConst {name : String} (h : IsQuotable name) (rest : List Char) :
    Legible (modelNameConst name).lexemes rest := by
  have hdocs : ∀ line ∈ ["Name of the model"], IsDocLine line := by decide
  have hspace : bodyIndent.all isSpace = true := by decide
  have hname : isWord "MODEL_NAME".toList = true := by decide
  exact legible_const (legible_docLexemes (by decide) hspace hdocs) hspace hname isStructured_staticText
    (fun rest => ⟨legible_quoted h rfl rest, trivial⟩) (by simp [modelNameConst, quoted])
    (by simp [modelNameConst])

theorem legible_fieldNamesConst {names : List String} (h : ∀ n ∈ names, IsQuotable n)
    (rest : List Char) : Legible (fieldNamesConst names).lexemes rest := by
  have hdocs : ∀ line ∈ ["Names of the merged fields, in declaration order"], IsDocLine line := by
    decide
  have hspace : bodyIndent.all isSpace = true := by decide
  have hname : isWord "FIELD_NAMES".toList = true := by decide
  exact legible_const (legible_docLexemes (by decide) hspace hdocs) hspace hname isStructured_fieldNames
    (legible_namesLexemes h) (by simp [fieldNamesConst, namesLexemes, sign])
    (by simp [fieldNamesConst, namesLexemes])

theorem legible_modelNamesConst {names : List String} (h : ∀ n ∈ names, IsQuotable n)
    (rest : List Char) : Legible (modelNamesConst names).lexemes rest := by
  have hdocs : ∀ line ∈ ["Every model of the pool, in merge order"], IsDocLine line := by
    decide
  have hname : isWord "MODEL_NAMES".toList = true := by decide
  exact legible_const (legible_docLexemes (by decide) rfl hdocs) rfl hname isStructured_modelNames
    (legible_namesLexemes h) (by simp [modelNamesConst, namesLexemes, sign])
    (by simp [modelNamesConst, namesLexemes])

/-- A field's name stands in quotes without its mark. -/
theorem isQuotable_plainFieldName {name : String} (h : IsQuotable name) :
    IsQuotable (plainFieldName name) := by
  have hstrip : ∀ cs : List Char, ∀ c ∈ plainFieldName.strip cs, c ∈ cs := by
    intro cs
    induction cs using plainFieldName.strip.induct with
    | case1 r ih =>
      intro c hc
      rw [plainFieldName.strip] at hc
      exact List.mem_cons_of_mem _ (List.mem_cons_of_mem _ (ih c hc))
    | case2 cs hcs =>
      intro c hc
      rwa [plainFieldName.strip.eq_2 _ hcs] at hc
  intro c hc
  rw [plainFieldName, String.toList_ofList] at hc
  exact h c (hstrip _ c hc)

/-- **What makes a model's file read back**: its names are words where words are meant, each line of its
documentation stays a line, and nothing in the types of its fields is kept as text. -/
structure IsPlain (e : Emitter) (m : MergedModel) (fs : List (MergedField × TypeExpr)) : Prop where
  poolName : isWord e.poolName.toList = true
  name : isPathHead m.name = true
  imports : ∀ p ∈ e.importedPackages m, IsImportPath p
  newNames : ∀ p ∈ e.importedPackages m, ∀ a ∈ e.newName? p, isWord a.toList = true
  docs : ∀ line ∈ writtenDocs m, IsDocLine line
  fields : ∀ f ∈ fs, IsWritten (written f)
  fields_eq : fs.map Prod.fst = m.fields

/-- **The lexer cuts a model's file apart again.** -/
theorem IsPlain.legible {e : Emitter} {m : MergedModel} {fs : List (MergedField × TypeExpr)}
    (h : IsPlain e m fs) (rest : List Char) : Legible (e.modelLexemes m fs) rest := by
  have hname : isWord m.name.toList = true := (Bool.and_eq_true_iff.1 h.name).1
  have hfields : ∀ n ∈ m.fields.map fun f => plainFieldName f.name, IsQuotable n := by
    rw [← h.fields_eq, List.map_map]
    intro n hn
    obtain ⟨f, hf, rfl⟩ := List.mem_map.1 hn
    exact isQuotable_plainFieldName (isQuotable_of_isWord (h.fields f hf).name)
  have himpl : Legible (implLexemes m) rest := by
    refine ⟨before_word (by decide) (by decide) (endsWord_cons (by decide) _),
      before_word rfl hname (endsWord_cons (by decide) _), before_sign rfl (by decide) _,
      legible_append.2 ⟨?_, before_sign (by decide) (by decide) _, trivial⟩⟩
    rw [List.flatMap_cons, List.flatMap_cons, List.flatMap_nil, List.append_nil]
    exact legible_append.2 ⟨legible_modelNameConst (isQuotable_of_isWord hname) _,
      legible_fieldNamesConst hfields _⟩
  refine legible_append.2 ⟨legible_preambleLexemes h.poolName _, legible_append.2 ⟨?_, ?_⟩⟩
  · exact legible_importLexemes e (by decide) h.imports h.newNames _
  refine legible_append.2 ⟨legible_docLexemes (by decide) rfl h.docs _, legible_append.2 ⟨?_, himpl⟩⟩
  refine legible_structLexemes rfl hname fun f hf => ?_
  obtain ⟨g, hg, rfl⟩ := List.mem_map.1 hf
  exact h.fields g hg

/-- **The lexer cuts the registry apart again.** -/
theorem legible_registryLexemes {e : Emitter} (hpool : isWord e.poolName.toList = true)
    (hmodels : ∀ m ∈ e.models, isWord m.name.toList = true) (rest : List Char) :
    Legible e.registryLexemes rest := by
  refine legible_append.2 ⟨legible_preambleLexemes hpool _, legible_modelNamesConst ?_ _⟩
  intro n hn
  obtain ⟨m, hm, rfl⟩ := List.mem_map.1 hn
  exact isQuotable_of_isWord (hmodels m hm)

end Emitter

end ModelPool
