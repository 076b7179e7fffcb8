import ModelPool.Proofs.Pool.FileReading

/-!
# Proofs/Pool/QuotedTexts — the names that a file has in quotes

    pub const MODEL_NAME: &'static str = "A";
    pub const FIELD_NAMES: &'static [&'static str] = &["x", "y"];        "A"  "x"  "y"

Reading a source keeps nothing of the value of a constant.  But the names in the constants of a pool stand in
quotes, and nothing else in its files does, so they are the texts that the lexer cuts out of them.

* `quotedTexts_registry` — the texts in the registry.
* `IsPlain.quotedTexts` — those in the file of a model.
-/

namespace ModelPool

open Text Source Lexeme TypeExpr

namespace Emitter

variable {e : Emitter} {m : MergedModel} {fs : List (MergedField × TypeExpr)}

/-- The texts in quotes among lexemes. -/
def quotedTextsOf (ls : List Lexeme) : List String := (ls.filter fun l => l.kind == .text).map Lexeme.text

/-! ## Lexemes that are no texts -/

theorem quotedTextsOf_append (ls r : List Lexeme) :
    quotedTextsOf (ls ++ r) = quotedTextsOf ls ++ quotedTextsOf r := by
  simp [quotedTextsOf]

@[simp] theorem quotedTextsOf_nil : quotedTextsOf [] = [] := rfl

theorem quotedTextsOf_cons {l : Lexeme} (h : l.kind ≠ .text) (ls : List Lexeme) :
    quotedTextsOf (l :: ls) = quotedTextsOf ls := by
  simp [quotedTextsOf, h]

@[simp] theorem quotedTextsOf_ofName (space : List Char) (name : String) (ls : List Lexeme) :
    quotedTextsOf (ofName space name :: ls) = quotedTextsOf ls := quotedTextsOf_cons (by simp [ofName]) ls

@[simp] theorem quotedTextsOf_sign (space : List Char) (c : Char) (ls : List Lexeme) :
    quotedTextsOf (sign space c :: ls) = quotedTextsOf ls := quotedTextsOf_cons (by simp [sign]) ls

theorem quotedTextsOf_comments {ls : List Lexeme} (h : ∀ l ∈ ls, l.isComment = true) :
    quotedTextsOf ls = [] := by
  induction ls with
  | nil => rfl
  | cons l r ih =>
    obtain ⟨hl, hr⟩ := List.forall_mem_cons.1 h
    have hkind : l.kind = .comment := by simpa [Lexeme.isComment] using hl
    rw [quotedTextsOf_cons (by simp [hkind]), ih hr]

theorem quotedTextsOf_pathLexemes (space : List Char) (path : List String) :
    quotedTextsOf (pathLexemes space path) = [] := by
  have hsegments : ∀ r, quotedTextsOf (segmentLexemes r) = [] := by
    intro r
    induction r with
    | nil => rfl
    | cons s r ih => rw [segmentLexemes, quotedTextsOf_cons (by simp [colons]), quotedTextsOf_ofName, ih]
  cases path with
  | nil => rfl
  | cons h r => rw [pathLexemes, quotedTextsOf_ofName, hsegments]

theorem lengthLexemes_digits {s : String} (hs : isDigits s = true) : lengthLexemes s = [number [' '] s] :=
  lengthLexemes_eq (by simp [number]) ⟨before_digits rfl hs (by simp; decide), trivial⟩

/-- Types are listed without texts if they have none. -/
theorem quotedTextsOf_listLexemes {ts : List TypeExpr}
    (h : ∀ t ∈ ts, ∀ space, quotedTextsOf (typeLexemes space t) = []) :
    quotedTextsOf (listLexemes ts) = [] := by
  have hfurther : ∀ r : List TypeExpr, (∀ t ∈ r, ∀ space, quotedTextsOf (typeLexemes space t) = []) →
      quotedTextsOf (furtherLexemes r) = [] := by
    intro r hr
    induction r with
    | nil => simp [furtherLexemes]
    | cons t r ih =>
      obtain ⟨ht, hr⟩ := List.forall_mem_cons.1 hr
      rw [furtherLexemes, quotedTextsOf_sign, quotedTextsOf_append, ht, ih hr]
      rfl
  cases ts with
  | nil => simp [listLexemes]
  | cons t r =>
    obtain ⟨ht, hr⟩ := List.forall_mem_cons.1 h
    rw [listLexemes, quotedTextsOf_append, ht, hfurther r hr]
    rfl

/-- **A structured type is written without texts.** -/
theorem quotedTextsOf_typeLexemes {t : TypeExpr} (h : t.isStructured = true) (space : List Char) :
    quotedTextsOf (typeLexemes space t) = [] := by
  induction t using Ty.partsInduction generalizing space with
  | path segments args ih =>
    rw [isStructured, Bool.and_eq_true, allStructured_iff] at h
    have hargs := quotedTextsOf_listLexemes fun t ht space => ih t ht (h.2 t ht) space
    rw [typeLexemes, quotedTextsOf_append, quotedTextsOf_pathLexemes]
    split
    · rfl
    · rw [quotedTextsOf_sign, quotedTextsOf_append, hargs]
      simp
  | reference lifetime mutable inner ih =>
    rw [isStructured, Bool.and_eq_true] at h
    have hmark : quotedTextsOf (markLexemes lifetime mutable).1 = [] := by
      cases lifetime <;> cases mutable <;> rfl
    rw [typeLexemes, quotedTextsOf_sign, quotedTextsOf_append, hmark, ih h.2]
    rfl
  | slice element ih =>
    rw [isStructured] at h
    rw [typeLexemes, quotedTextsOf_sign, quotedTextsOf_append, ih h]
    simp
  | array element length ih =>
    rw [isStructured, Bool.and_eq_true] at h
    rw [typeLexemes, quotedTextsOf_sign, quotedTextsOf_append, ih h.1, quotedTextsOf_sign,
      lengthLexemes_digits h.2]
    rfl
  | tuple elements ih =>
    rw [isStructured, allStructured_iff] at h
    have helements := quotedTextsOf_listLexemes fun t ht space => ih t ht (h t ht) space
    rw [typeLexemes, quotedTextsOf_sign, quotedTextsOf_append, helements]
    split <;> simp
  | traitObject keyword bound ih =>
    rw [isStructured, Bool.and_eq_true] at h
    rw [typeLexemes, quotedTextsOf_ofName, ih h.2]
  | verbatim text => exact absurd h (by simp [isStructured])

/-! ## The parts of a file -/

theorem quotedTextsOf_preambleLexemes (packageName : String) :
    quotedTextsOf (preambleLexemes packageName) = [] := rfl

theorem quotedTextsOf_importLexemes (e : Emitter) (space : List Char) (packages : List String) :
    quotedTextsOf (e.importLexemes space packages) = [] := by
  induction packages generalizing space with
  | nil => rfl
  | cons package r ih =>
    have hrenaming : quotedTextsOf (renamingLexemes (e.newName? package)) = [] := by
      cases e.newName? package <;> rfl
    rw [importLexemes, useLexemes, quotedTextsOf_append, ih, quotedTextsOf_ofName, quotedTextsOf_append,
      quotedTextsOf_pathLexemes, quotedTextsOf_append, hrenaming]
    simp

theorem quotedTextsOf_structLexemes {space : List Char} {name : String}
    {gs : List (String × TypeExpr × List String)} (h : ∀ g ∈ gs, g.2.1.isStructured = true) :
    quotedTextsOf (structLexemes space name gs) = [] := by
  have hfields : quotedTextsOf (gs.flatMap (fieldLexemes bodyIndent)) = [] := by
    induction gs with
    | nil => rfl
    | cons g r ih =>
      obtain ⟨hg, hr⟩ := List.forall_mem_cons.1 h
      rw [List.flatMap_cons, quotedTextsOf_append, ih hr, fieldLexemes, quotedTextsOf_append,
        quotedTextsOf_comments isComment_docLexemes, quotedTextsOf_ofName, quotedTextsOf_ofName,
        quotedTextsOf_sign, quotedTextsOf_append, quotedTextsOf_typeLexemes hg]
      simp
  rw [structLexemes, quotedTextsOf_ofName, quotedTextsOf_ofName, quotedTextsOf_ofName, quotedTextsOf_sign,
    quotedTextsOf_append, hfields]
  simp

/-- The texts of a constant are those of its value. -/
theorem quotedTextsOf_const {c : WrittenConst} (h : c.IsRead) :
    quotedTextsOf c.lexemes = quotedTextsOf c.value := by
  rw [WrittenConst.lexemes, quotedTextsOf_append, quotedTextsOf_comments h.comments, constLexemes,
    quotedTextsOf_ofName, quotedTextsOf_ofName, quotedTextsOf_ofName, quotedTextsOf_sign,
    quotedTextsOf_append, quotedTextsOf_typeLexemes h.type, quotedTextsOf_sign, quotedTextsOf_append]
  simp

/-- A list of names has the names in quotes for its texts. -/
theorem quotedTextsOf_namesLexemes (names : List String) :
    quotedTextsOf (namesLexemes names) = names.map fun n => "\"" ++ n ++ "\"" := by
  have hnames : quotedTextsOf (quotedLexemes names) = names.map fun n => "\"" ++ n ++ "\"" := by
    cases names with
    | nil => rfl
    | cons name r =>
      have hrest : quotedTextsOf (r.flatMap fun name => [sign [] ',', quoted [' '] name]) =
          r.map fun n => "\"" ++ n ++ "\"" := by
        induction r with
        | nil => rfl
        | cons name r ih =>
          rw [List.flatMap_cons, quotedTextsOf_append, ih]
          rfl
      exact congrArg _ hrest
  rw [namesLexemes, quotedTextsOf_sign, quotedTextsOf_sign, quotedTextsOf_append, hnames]
  simp

theorem quotedTextsOf_implLexemes (m : MergedModel) : quotedTextsOf (implLexemes m) =
    (m.name :: m.fields.map fun f => plainFieldName f.name).map fun n => "\"" ++ n ++ "\"" := by
  have hname := quotedTextsOf_const (isRead_modelNameConst m.name)
  have hfields := quotedTextsOf_const (isRead_fieldNamesConst (m.fields.map fun f => plainFieldName f.name))
  rw [implLexemes, quotedTextsOf_ofName, quotedTextsOf_ofName, quotedTextsOf_sign, quotedTextsOf_append,
    List.flatMap_cons, List.flatMap_cons, List.flatMap_nil, List.append_nil, quotedTextsOf_append, hname,
    hfields]
  exact (List.append_nil _).trans (congrArg (_ :: ·) (quotedTextsOf_namesLexemes _))

/-! ## Files -/

/-- **The texts in quotes** in a source, with their quotes. -/
def quotedTexts (source : String) : List String := quotedTextsOf ((tokens source.toList).map Token.bare)

/-- **The texts in quotes in the registry are the names of the models**, in order. -/
theorem quotedTexts_registry (hpool : isWord e.poolName.toList = true)
    (hmodels : ∀ m ∈ e.models, isWord m.name.toList = true) :
    quotedTexts e.registry = (e.models.map MergedModel.name).map fun n => "\"" ++ n ++ "\"" := by
  have hfirst : (print e.registryLexemes ++ ['\n']).head? = some '/' := rfl
  rw [quotedTexts, ← print_registryLexemes,
    map_bare_tokens (legible_registryLexemes hpool hmodels _) (by decide) hfirst (by decide),
    registryLexemes, quotedTextsOf_append, quotedTextsOf_preambleLexemes, quotedTextsOf_const (isRead_modelNamesConst _)]
  exact quotedTextsOf_namesLexemes _

/-- **Those in the file of a model are its name and the names of its fields**, in order and without the marks of
raw identifiers. -/
theorem IsPlain.quotedTexts (h : IsPlain e m fs) :
    Emitter.quotedTexts (preamble e.poolName ++ e.useLines (e.importedPackages m) ++ "\n" ++ modelDocs m ++
      structLines m (fs.map fun f => (f.1, f.2.text)) ++ "\n" ++ implLines m) =
      (m.name :: m.fields.map fun f => plainFieldName f.name).map fun n => "\"" ++ n ++ "\"" := by
  have hprint := print_modelLexemes e h.imports fun f hf => (h.fields f hf).type
  have hfirst : (print (e.modelLexemes m fs) ++ ['\n']).head? = some '/' := rfl
  have hstructured : ∀ g ∈ fs.map written, g.2.1.isStructured = true := by
    intro g hg
    obtain ⟨f, hf, rfl⟩ := List.mem_map.1 hg
    exact (h.fields f hf).type
  rw [Emitter.quotedTexts, ← hprint,
    map_bare_tokens (h.legible ['\n']) (by decide) hfirst (by decide), modelLexemes, quotedTextsOf_append,
    quotedTextsOf_preambleLexemes, quotedTextsOf_append, quotedTextsOf_importLexemes, quotedTextsOf_append,
    quotedTextsOf_comments isComment_docLexemes, quotedTextsOf_append,
    quotedTextsOf_structLexemes hstructured]
  exact quotedTextsOf_implLexemes m

end Emitter

end ModelPool
