import ModelPool.Proofs.Pool.FileLexemes

/-!
# Proofs/Pool/FileReading — the files of a pool are read back

Read as a source, the file of a model declares what it was written for: one public struct with the
documentation and the fields of the model, one block with its two constants, and its imports.  The
registry declares its one constant.

* `IsPlain.declares` — the declarations of a model's file.
* `declares_registry` — those of the registry.
-/

namespace ModelPool

open Text Source Lexeme Reader TypeExpr

namespace Emitter

variable {e : Emitter} {m : MergedModel} {fs : List (MergedField × TypeExpr)} {n N : Nat}
  {ls : List Lexeme} {R : List Statement → Prop}

/-! ## Statements -/

/-- The statements that a file begins with. -/
def preambleStatements (packageName : String) : List Statement :=
  headerLexemes.map (fun l => .comment l.text) ++
    [.innerAttribute ("#![" ++ packageAttribute ++ "(" ++ packageName ++ ")]")]

theorem tells_preamble {packageName : String} (hname : isWord packageName.toList = true) (hn : 1 < n)
    (h : Tells n N ls R) :
    Tells n N (preambleLexemes packageName ++ ls) fun ss =>
      ∃ r, ss = preambleStatements packageName ++ r ∧ R r := by
  have hcomments : ∀ l ∈ headerLexemes, l.isComment = true := by decide
  have hattribute := @finds_statement_attribute N n ls ['\n'] packageAttribute packageName
    (by decide) hname hn
  have htold := tells_comments hcomments (tells_statement rfl hattribute h)
  rw [preambleLexemes, List.append_assoc]
  refine htold.imp ?_
  rintro _ ⟨_, rfl, _, r, rfl, rfl, hR⟩
  exact ⟨r, by simp [preambleStatements], hR⟩

/-- The statement that imports a package, on some line. -/
def Imports (e : Emitter) (package : String) (s : Statement) : Prop :=
  ∃ line, s = .use line (importTree (splitPath package) (e.newName? package))

theorem tells_imports {space : List Char} {packages : List String}
    (h : ∀ p ∈ packages, IsImportPath p) (hnames : ∀ p ∈ packages, ∀ a ∈ e.newName? p, isWord a.toList = true)
    (hn : (e.importLexemes space packages).length + 8 < n)
    (hrest : Tells n N ls R) :
    Tells n N (e.importLexemes space packages ++ ls) fun ss =>
      ∃ us r, ss = us ++ r ∧ List.Forall₂ e.Imports packages us ∧ R r := by
  induction packages generalizing space with
  | nil => exact hrest.imp fun ss hR => ⟨[], ss, rfl, .nil, hR⟩
  | cons package r ih =>
    obtain ⟨⟨-, hne, hwords⟩, hr⟩ := List.forall_mem_cons.1 h
    obtain ⟨hname, hnames⟩ := List.forall_mem_cons.1 hnames
    rw [importLexemes, List.length_append] at hn
    have huse := @finds_statement_use N n (e.importLexemes ['\n'] r ++ ls) space (splitPath package)
      (e.newName? package) hne hwords hname (by omega)
    rw [importLexemes, List.append_assoc]
    refine (tells_statement rfl huse (ih hr hnames (by omega))).imp ?_
    rintro _ ⟨s, _, rfl, hs, us, q, rfl, hus, hR⟩
    exact ⟨s :: us, q, rfl, .cons hs hus, hR⟩

/-- The lexemes of a constant are comments and a public declaration. -/
theorem isRead_of_expression {c : WrittenConst} (hcomments : ∀ l ∈ c.comments, l.isComment = true)
    (hname : isPathHead c.name = true) (htype : c.type.isStructured = true)
    (hvalue : ∀ N n ls, Reads N (expression (n + 4) true) (c.value ++ sign [] ';' :: ls) ()
      (sign [] ';' :: ls)) : c.IsRead := by
  refine ⟨hcomments, hname, htype, fun N n ls hn => ?_⟩
  obtain ⟨k, rfl⟩ : ∃ k, n = k + 4 := ⟨n - 4, by omega⟩
  exact hvalue N k ls

theorem isFlat_quoted (space : List Char) (name : String) : IsFlat (quoted space name) := by
  have hhead : (quoted space name).text.toList.head? = some '"' := by simp [quoted]
  have hbracket : ∀ w ∈ brackets, w.toList.head? ≠ some '"' := by decide
  refine isFlat_of_text_ne (.inr (.inr rfl)) ?_
  rintro w hw rfl
  exact hbracket _ hw hhead

theorem isFlat_quotedLexemes (names : List String) : ∀ l ∈ quotedLexemes names, IsFlat l := by
  have hcomma : IsFlat (sign [] ',') := ⟨.inr (.inl rfl), by decide, by decide⟩
  cases names with
  | nil => simp [quotedLexemes]
  | cons name r =>
    rw [quotedLexemes]
    refine List.forall_mem_cons.2 ⟨isFlat_quoted _ _, fun l hl => ?_⟩
    obtain ⟨n, -, hn⟩ := List.mem_flatMap.1 hl
    simp only [List.mem_cons, List.not_mem_nil, or_false] at hn
    rcases hn with rfl | rfl
    · exact hcomma
    · exact isFlat_quoted _ _

/-- A list of names is an expression. -/
theorem reads_expression_names (names : List String) (ls : List Lexeme) :
    Reads N (expression (n + 4) true) (namesLexemes names ++ sign [] ';' :: ls) ()
      (sign [] ';' :: ls) := by
  have hread := @reads_expression_list N n [' '] (quotedLexemes names) (isFlat_quotedLexemes names) ls
  simpa [namesLexemes] using hread

theorem isRead_modelNameConst (name : String) : (modelNameConst name).IsRead := by
  have hname : isPathHead "MODEL_NAME" = true := by decide
  refine isRead_of_expression isComment_docLexemes hname isStructured_staticText fun N n ls => ?_
  exact reads_expression_text (by simp) ls

theorem isRead_fieldNamesConst (names : List String) : (fieldNamesConst names).IsRead := by
  have hname : isPathHead "FIELD_NAMES" = true := by decide
  exact isRead_of_expression isComment_docLexemes hname isStructured_fieldNames fun N n ls =>
    reads_expression_names names ls

theorem isRead_modelNamesConst (names : List String) : (modelNamesConst names).IsRead := by
  have hname : isPathHead "MODEL_NAMES" = true := by decide
  exact isRead_of_expression isComment_docLexemes hname isStructured_modelNames fun N n ls =>
    reads_expression_names names ls

/-- The item of a model's struct. -/
def IsStructItem (m : MergedModel) (fs : List (MergedField × TypeExpr)) (s : Statement) : Prop :=
  ∃ (gs : List Field) (line : Nat), gs.map Field.content = fs.map written ∧
    s = .item ⟨m.name, .struct (.named gs), [], [], [], true, line⟩

/-- The constants of a model, on some lines. -/
def ModelMembers (members : List Member) : Prop :=
  ∃ first second, members = [.const "MODEL_NAME" staticText first,
    .const "FIELD_NAMES" (.reference (some "static") false (.slice staticText)) second]

/-- The block with the constants of a model. -/
def IsModelBlock (m : MergedModel) (b : ImplBlock) : Prop :=
  b.generics = [] ∧ b.traitRef = none ∧ b.selfType = .path [m.name] [] ∧ ModelMembers b.members

theorem tells_struct (hfs : ∀ f ∈ fs, IsWritten (written f))
    (hn : 8 * (structLexemes [] m.name (fs.map written)).length < n) (h : Tells n N ls R) :
    Tells n N (structLexemes [] m.name (fs.map written) ++ ls) fun ss =>
      ∃ s r, ss = s :: r ∧ IsStructItem m fs s ∧ R r := by
  have hwritten : ∀ f ∈ fs.map written, IsWritten f := by
    intro f hf
    obtain ⟨g, hg, rfl⟩ := List.mem_map.1 hf
    exact hfs g hg
  have hshape : structLexemes [] m.name (fs.map written) ++ ls =
      ofName [] "pub" :: ofName [' '] "struct" :: ofName [' '] m.name :: sign [' '] '\x7b' ::
        ((fs.map written).flatMap (fieldLexemes bodyIndent) ++ sign ['\n'] '\x7d' :: ls) := by
    simp [structLexemes]
  have hlength : 8 * ((fs.map written).flatMap (fieldLexemes bodyIndent)).length + 3 < n := by
    rw [structLexemes] at hn
    simp only [List.length_append, List.length_cons] at hn
    omega
  have hstruct := @finds_statement_struct N n ls [] m.name _ bodyIndent hwritten hlength
  rw [← hshape] at hstruct
  exact tells_statement rfl hstruct h

theorem tells_impl (hname : isPathHead m.name = true) (hn : 8 * (implLexemes m).length < n)
    (h : Tells n N ls R) :
    Tells n N (implLexemes m ++ ls) fun ss => ∃ b r, ss = .impl b :: r ∧ IsModelBlock m b ∧ R r := by
  have hconsts : ∀ c ∈ [modelNameConst m.name,
      fieldNamesConst (m.fields.map fun f => plainFieldName f.name)], c.IsRead := by
    simp [isRead_modelNameConst, isRead_fieldNamesConst]
  have hshape : implLexemes m ++ ls = ofName ['\n', '\n'] "impl" :: ofName [' '] m.name ::
      sign [' '] '\x7b' :: ([modelNameConst m.name,
        fieldNamesConst (m.fields.map fun f => plainFieldName f.name)].flatMap WrittenConst.lexemes ++
        sign ['\n'] '\x7d' :: ls) := by
    simp [implLexemes]
  have hlength : 8 * ([modelNameConst m.name,
      fieldNamesConst (m.fields.map fun f => plainFieldName f.name)].flatMap
        WrittenConst.lexemes).length + 16 < n := by
    rw [implLexemes] at hn
    simp only [List.length_append, List.length_cons] at hn
    omega
  have himpl := @finds_statement_impl N n ls ['\n', '\n'] m.name _ hname hconsts hlength
  rw [← hshape] at himpl
  refine (tells_statement rfl himpl h).imp ?_
  rintro _ ⟨_, r, rfl, ⟨line, members, rfl, hmembers⟩, hR⟩
  refine ⟨_, r, rfl, ⟨rfl, rfl, rfl, ?_⟩, hR⟩
  cases hmembers with
  | cons hfirst hrest =>
    cases hrest with
    | cons hsecond hnone =>
      cases hnone
      obtain ⟨first, rfl⟩ := hfirst
      obtain ⟨second, rfl⟩ := hsecond
      exact ⟨first, second, rfl⟩

/-- **The statements of a model's file.** -/
def ModelStatements (e : Emitter) (m : MergedModel) (fs : List (MergedField × TypeExpr))
    (ss : List Statement) : Prop :=
  ∃ us s b, ss = preambleStatements e.poolName ++ (us ++ ((docLexemes ['\n', '\n'] []
      (writtenDocs m)).map (fun l => .comment l.text) ++ [s, .impl b])) ∧
    List.Forall₂ e.Imports (e.importedPackages m) us ∧ IsStructItem m fs s ∧ IsModelBlock m b

theorem IsPlain.tells (h : IsPlain e m fs) (hn : 16 * ((e.modelLexemes m fs).length + 1) ≤ n) :
    Tells n N (e.modelLexemes m fs) (e.ModelStatements m fs) := by
  rw [modelLexemes] at hn ⊢
  simp only [List.length_append] at hn
  have himpl := @tells_impl m n N [] (fun ss => ss = []) h.name (by omega) (tells_nil rfl)
  rw [List.append_nil] at himpl
  have hstruct := @tells_struct m fs n N _ _ h.fields (by omega) himpl
  have hdocs := tells_comments (@isComment_docLexemes ['\n', '\n'] [] (writtenDocs m)) hstruct
  have himports := @tells_imports e n N _ _ ['\n', '\n'] _ h.imports h.newNames (by omega) hdocs
  refine (tells_preamble h.poolName (by omega) himports).imp ?_
  rintro _ ⟨_, rfl, us, _, rfl, hus, _, rfl, s, _, rfl, hs, b, _, rfl, hb, rfl⟩
  exact ⟨us, s, b, rfl, hus, hs, hb⟩

/-! ## Declarations -/

/-- The attribute that names a package is read from its text. -/
theorem ofText?_package {name : String} (h : isWord name.toList = true) :
    Attribute.ofText? ("#![" ++ packageAttribute ++ "(" ++ name ++ ")]") =
      some ⟨packageAttribute, some name⟩ := by
  have hname := isBlank_of_isWord h
  have htext : ("#![" ++ packageAttribute ++ "(" ++ name ++ ")]").toList =
      '#' :: '!' :: '[' :: ("package".toList ++ '(' :: (name.toList ++ [')']) ++ [']']) := by
    simp [packageAttribute]
  have hblank : ∀ c ∈ "package".toList ++ '(' :: (name.toList ++ [')']), isBlank c = false :=
    List.forall_mem_append.2 ⟨isBlank_of_isWord (by decide), List.forall_mem_cons.2
      ⟨by decide, List.forall_mem_append.2 ⟨hname, List.forall_mem_singleton.2 (by decide)⟩⟩⟩
  have hall : ∀ c ∈ '#' :: '!' :: '[' :: ("package".toList ++ '(' :: (name.toList ++ [')']) ++ [']']),
      isBlank c = false := by
    refine List.forall_mem_cons.2 ⟨by decide, List.forall_mem_cons.2 ⟨by decide, List.forall_mem_cons.2
      ⟨by decide, List.forall_mem_append.2 ⟨hblank, List.forall_mem_singleton.2 (by decide)⟩⟩⟩⟩
  have hinside : Attribute.inside? ("#![" ++ packageAttribute ++ "(" ++ name ++ ")]").toList =
      some ("package".toList ++ '(' :: (name.toList ++ [')'])) := by
    rw [htext, Attribute.inside?, trim_of_forall hall]
    have hbody := trim_of_forall (List.forall_mem_cons.1 (List.forall_mem_cons.1 hall).2).2
    simp only [Option.bind_eq_bind, Option.bind_some, hbody]
    simp only [dropLast?, List.getLast?_concat, if_true, List.dropLast_concat, Option.map_some,
      trim_of_forall hblank]
  have hargs : Attribute.arguments? ('(' :: (name.toList ++ [')'])) = some (some name) := by
    have hend : trimEnd (name.toList ++ [')']) = name.toList ++ [')'] :=
      trimEnd_of_forall (List.forall_mem_append.2 ⟨hname, List.forall_mem_singleton.2 (by decide)⟩)
    simp [Attribute.arguments?, hend, dropLast?, trim_of_forall hname]
  have hdrop : ("package".toList ++ '(' :: (name.toList ++ [')'])).dropWhile
      (fun c => c != '(' && c != '=') = '(' :: (name.toList ++ [')']) := rfl
  have htake : ("package".toList ++ '(' :: (name.toList ++ [')'])).takeWhile
      (fun c => c != '(' && c != '=') = "package".toList := rfl
  have htrim : trim "package".toList = "package".toList := by decide
  unfold Attribute.ofText?
  rw [hinside]
  simp only [Option.bind_eq_bind, Option.bind_some, hdrop, htake, hargs, htrim]
  rfl

/-- **What the file of a model declares.** -/
structure Declares (e : Emitter) (m : MergedModel) (fs : List (MergedField × TypeExpr))
    (u : SourceUnit) : Prop where
  wellFormed : u.isWellFormed = true
  package : u.package = some e.poolName
  uses : u.uses.map UseEntry.content =
    (e.importedPackages m).map fun p => (splitPath p, e.newName? p, false)
  item : ∃ (gs : List Field) (line : Nat), gs.map Field.content = fs.map written ∧
    u.items = [⟨m.name, .struct (.named gs), [], [], writtenDocs m, true, line⟩]
  block : ∃ b, u.impls = [b] ∧ IsModelBlock m b

/-- Comments lengthen a stretch by the documentation in them. -/
theorem itemsFrom_comments (s : Stretch) (comments : List Lexeme) (r : List Statement) :
    itemsFrom s (comments.map (fun l => .comment l.text) ++ r) =
      itemsFrom { s with docs := s.docs ++ comments.filterMap fun l => documentation? l.text } r := by
  induction comments generalizing s with
  | nil => simp
  | cons l comments ih =>
    rw [List.map_cons, List.cons_append, itemsFrom_comment, ih, List.filterMap_cons]
    cases documentation? l.text <;> simp

theorem itemsFrom_preamble (packageName : String) (r : List Statement) :
    itemsFrom .empty (preambleStatements packageName ++ r) = itemsFrom .empty r := by
  have hnone : headerLexemes.filterMap (fun l => documentation? l.text) = [] := by decide +kernel
  rw [preambleStatements, List.append_assoc, itemsFrom_comments, hnone]
  rfl

theorem itemsFrom_imports {packages : List String} {us : List Statement}
    (h : List.Forall₂ e.Imports packages us) (r : List Statement) :
    itemsFrom .empty (us ++ r) = itemsFrom .empty r := by
  induction h with
  | nil => rfl
  | cons hfirst _ ih =>
    obtain ⟨line, rfl⟩ := hfirst
    exact ih

theorem innerAttributesIn_append (ss r : List Statement) :
    innerAttributesIn (ss ++ r) = innerAttributesIn ss ++ innerAttributesIn r :=
  List.filterMap_append

theorem usesIn_append (ss r : List Statement) : usesIn (ss ++ r) = usesIn ss ++ usesIn r :=
  List.flatMap_append

theorem implsIn_append (ss r : List Statement) : implsIn (ss ++ r) = implsIn ss ++ implsIn r :=
  List.filterMap_append

theorem declared_comments (comments : List Lexeme) :
    innerAttributesIn (comments.map fun l => .comment l.text) = [] ∧
      usesIn (comments.map fun l => .comment l.text) = [] ∧
      implsIn (comments.map fun l => .comment l.text) = [] := by
  induction comments with
  | nil => exact ⟨rfl, rfl, rfl⟩
  | cons l r ih => exact ih

theorem declared_imports {packages : List String} {us : List Statement}
    (h : List.Forall₂ e.Imports packages us) :
    innerAttributesIn us = [] ∧ implsIn us = [] ∧ (usesIn us).map UseEntry.content =
      packages.map fun p => (splitPath p, e.newName? p, false) := by
  have hcontent : ∀ (path : List String) (newName : Option String) (line : Nat),
      ((importTree path newName).entries line).map UseEntry.content = [(path, newName, false)] := by
    intro path newName line
    cases newName <;> simp [importTree, UseTree.entries, UseTree.entriesBelow, UseTree.pathUnder,
      UseEntry.content]
  induction h with
  | nil => exact ⟨rfl, rfl, rfl⟩
  | cons hfirst _ ih =>
    obtain ⟨line, rfl⟩ := hfirst
    obtain ⟨hattributes, himpls, huses⟩ := ih
    refine ⟨hattributes, himpls, ?_⟩
    rw [List.map_cons, ← huses]
    exact (List.map_append).trans (congrArg (· ++ _) (hcontent _ _ line))

/-- The package that a file with a preamble names. -/
theorem innerAttributesIn_preamble {packageName : String} (h : isWord packageName.toList = true) :
    innerAttributesIn (preambleStatements packageName) = [⟨packageAttribute, some packageName⟩] := by
  rw [preambleStatements, innerAttributesIn_append, (declared_comments headerLexemes).1]
  have hattribute := ofText?_package h
  simp [innerAttributesIn, hattribute]

theorem declaredPackage?_preamble {packageName : String} (h : isWord packageName.toList = true) :
    declaredPackage? [⟨packageAttribute, some packageName⟩] = some packageName := by
  have htrim : trimmed packageName = packageName := trimmed_of_forall (isBlank_of_isWord h)
  have hne : packageName ≠ "" := by
    rintro rfl
    exact absurd h (by decide)
  simp [declaredPackage?, htrim, hne]

/-- **What a file declares behind a preamble.** -/
theorem ofStatements_preamble {packageName : String} (h : isWord packageName.toList = true)
    {r : List Statement} (hr : innerAttributesIn r = []) :
    SourceUnit.ofStatements (preambleStatements packageName ++ r) [] =
      ⟨some packageName, [⟨packageAttribute, some packageName⟩], usesIn r, itemsFrom .empty r,
        implsIn r, []⟩ := by
  have hattribute : usesIn (preambleStatements packageName) = [] ∧
      implsIn (preambleStatements packageName) = [] := by
    obtain ⟨-, huses, himpls⟩ := declared_comments headerLexemes
    rw [preambleStatements, usesIn_append, implsIn_append, huses, himpls]
    exact ⟨rfl, rfl⟩
  rw [SourceUnit.ofStatements, innerAttributesIn_append, innerAttributesIn_preamble h, hr,
    List.append_nil, declaredPackage?_preamble h, usesIn_append, hattribute.1, implsIn_append,
    hattribute.2, itemsFrom_preamble]
  rfl

theorem ModelStatements.declares {ss : List Statement} (hpool : isWord e.poolName.toList = true)
    (hdocs : ∀ line ∈ writtenDocs m, IsDocLine line) (h : e.ModelStatements m fs ss) :
    e.Declares m fs (SourceUnit.ofStatements ss []) := by
  obtain ⟨us, _, b, rfl, hus, ⟨gs, line, hgs, rfl⟩, hb⟩ := h
  obtain ⟨hdocAttributes, hdocUses, hdocImpls⟩ :=
    declared_comments (docLexemes ['\n', '\n'] [] (writtenDocs m))
  obtain ⟨himportAttributes, himportImpls, himportUses⟩ := declared_imports hus
  rw [ofStatements_preamble hpool]
  · refine ⟨rfl, rfl, ?_, ⟨gs, line, hgs, ?_⟩, ⟨b, ?_, hb⟩⟩
    · dsimp only
      rw [usesIn_append, usesIn_append, hdocUses]
      simpa [usesIn] using himportUses
    · dsimp only
      rw [itemsFrom_imports hus, itemsFrom_comments, filterMap_docLexemes hdocs]
      rfl
    · dsimp only
      rw [implsIn_append, implsIn_append, hdocImpls, himportImpls]
      rfl
  · rw [innerAttributesIn_append, innerAttributesIn_append, himportAttributes, hdocAttributes]
    rfl

/-- **The file of a model is read back.** -/
theorem IsPlain.declares (h : IsPlain e m fs) :
    e.Declares m fs (SourceUnit.ofText (preamble e.poolName ++ e.useLines (e.importedPackages m) ++
      "\n" ++ modelDocs m ++ structLines m (fs.map fun f => (f.1, f.2.text)) ++ "\n" ++
      implLines m)) := by
  have hprint := print_modelLexemes e h.imports fun f hf => (h.fields f hf).type
  have hfirst : ∀ rest, (print (e.modelLexemes m fs) ++ rest).head? = some '/' := by
    intro rest
    rfl
  obtain ⟨ss, hunit, hss⟩ := exists_ofCharacters (h.legible ['\n']) (by decide) (hfirst _)
    (by decide) (h.tells (Nat.le_refl _))
  rw [SourceUnit.ofText, ← hprint, hunit]
  exact hss.declares h.poolName h.docs

/-- The statements of a constant with documentation, on some line. -/
def ConstStatements (c : WrittenConst) (ss : List Statement) : Prop :=
  ∃ line, ss = c.comments.map (fun l => .comment l.text) ++
    [.item ⟨c.name, .const c.type, [], [], [], true, line⟩]

theorem tells_registry (hpool : isWord e.poolName.toList = true)
    (hn : 8 * e.registryLexemes.length < n) :
    Tells n N e.registryLexemes fun ss => ∃ r, ss = preambleStatements e.poolName ++ r ∧
      ConstStatements (modelNamesConst (e.models.map MergedModel.name)) r := by
  rw [registryLexemes] at hn ⊢
  obtain ⟨c, hc⟩ : ∃ c, c = modelNamesConst (e.models.map MergedModel.name) := ⟨_, rfl⟩
  have hread : c.IsRead := hc ▸ isRead_modelNamesConst _
  have hcount := c.lexemeCount_le
  rw [← hc, List.length_append] at hn
  have hconst := @finds_statement_const N n (constLexemes c.space c.name c.type c.value ++ []) []
    c.space c.type c.name true c.value rfl hread.name hread.type (by omega) (hread.value _)
  have htold := @tells_preamble n N _ _ e.poolName hpool (by omega)
    (tells_comments hread.comments (tells_statement rfl hconst (@tells_nil n N (fun ss => ss = []) rfl)))
  rw [← hc, WrittenConst.lexemes]
  rw [List.append_nil] at htold
  refine htold.imp ?_
  rintro _ ⟨_, rfl, _, rfl, _, _, rfl, ⟨line, rfl⟩, rfl⟩
  exact ⟨_, rfl, line, rfl⟩

/-- **The registry is read back.** -/
theorem declares_registry (hpool : isWord e.poolName.toList = true)
    (hmodels : ∀ m ∈ e.models, isWord m.name.toList = true) :
    ∃ line, SourceUnit.ofText e.registry =
      ⟨some e.poolName, [⟨packageAttribute, some e.poolName⟩], [],
        [⟨"MODEL_NAMES", .const (modelNamesConst []).type, [], [],
          ["Every model of the pool, in merge order"], true, line⟩], [], []⟩ := by
  obtain ⟨c, hc⟩ : ∃ c, c = modelNamesConst (e.models.map MergedModel.name) := ⟨_, rfl⟩
  have hdocs : c.comments.filterMap (fun l => documentation? l.text) =
      ["Every model of the pool, in merge order"] := by
    rw [hc]
    exact filterMap_docLexemes (by decide +kernel)
  have hfirst : (print e.registryLexemes ++ ['\n']).head? = some '/' := rfl
  obtain ⟨ss, hunit, _, rfl, line, rfl⟩ := exists_ofCharacters (legible_registryLexemes hpool hmodels _)
    (by decide) hfirst (by decide) (tells_registry hpool (by omega))
  rw [← hc] at hunit
  obtain ⟨hattributes, huses, himpls⟩ := declared_comments c.comments
  refine ⟨line, ?_⟩
  rw [SourceUnit.ofText, ← print_registryLexemes, hunit, ofStatements_preamble hpool]
  · rw [usesIn_append, implsIn_append, huses, himpls, itemsFrom_comments, hdocs, hc]
    rfl
  · rw [innerAttributesIn_append, hattributes]
    rfl

/-- **The placeholder is read back.** -/
theorem ofText_preamble {packageName : String} (h : isWord packageName.toList = true) :
    SourceUnit.ofText (preamble packageName) =
      ⟨some packageName, [⟨packageAttribute, some packageName⟩], [], [], [], []⟩ := by
  have htells : ∀ n N, 1 < n → Tells n N (preambleLexemes packageName) fun ss =>
      ss = preambleStatements packageName := by
    intro n N hn
    have htold := tells_preamble h hn (@tells_nil n N (fun ss => ss = []) rfl)
    rw [List.append_nil] at htold
    refine htold.imp ?_
    rintro _ ⟨_, rfl, rfl⟩
    exact List.append_nil _
  have hfirst : (print (preambleLexemes packageName) ++ ['\n']).head? = some '/' := rfl
  obtain ⟨ss, hunit, rfl⟩ := exists_ofCharacters (legible_preambleLexemes h _) (by decide) hfirst
    (by decide) (htells _ _ (by omega))
  rw [SourceUnit.ofText, ← print_preambleLexemes, hunit,
    ← List.append_nil (preambleStatements packageName), ofStatements_preamble h rfl]
  rfl

end Emitter

end ModelPool
