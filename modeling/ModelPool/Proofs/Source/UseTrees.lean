import ModelPool.Proofs.Source.TypeLexemes
import ModelPool.Source.UseTree

/-!
# Proofs/Source/UseTrees — how `use` trees are written, and what their leaves stand for

    a::{self, b as c, d::{e, *}}        a    a::b as c    a::d::e    a::d::*

A tree is written with its paths, its leaves and its braces in a row; of which lexemes is told by
`UseTree.Spells`.  Each leaf stands for one entry, below the paths of all lists around it.

* `UseTree.entries_eq_map` — the entries of a tree, leaf by leaf.
* `UseTree.entriesBelow_eq` — a path stands before a list or before each of its trees.
* `IsPath.splitPath_eq`, `IsAnyPath.spells` — a path is written as the pieces that its text is cut into.
-/

namespace ModelPool

/-- What is known of an import besides its place. -/
def UseEntry.content (u : UseEntry) : List String × Option String × Bool := (u.path, u.asName, u.glob)

end ModelPool

namespace ModelPool.Source

open Lexeme Text

/-! ## Leaves -/

/-- **A leaf of a `use` tree**: the path of the lists around it, and what stands at the leaf itself. -/
structure UseLeaf where
  above : List String
  path : List String
  asName : Option String
  glob : Bool
deriving DecidableEq

namespace UseLeaf

/-- The leaf in one more list, which has a path. -/
def below (above : List String) (l : UseLeaf) : UseLeaf := { l with above := above ++ l.above }

/-- The path of the leaf behind that of the lists, to which a lone `self` adds nothing. -/
def whole (l : UseLeaf) : List String :=
  if l.path = ["self"] ∧ l.above ≠ [] then l.above else l.above ++ l.path

/-- **What the leaf stands for** on a line. -/
def entry (line : Nat) (l : UseLeaf) : UseEntry := ⟨l.whole, l.asName, l.glob, line⟩

/-- What it stands for on any line. -/
def content (l : UseLeaf) : List String × Option String × Bool := (l.whole, l.asName, l.glob)

theorem content_entry (line : Nat) : UseEntry.content ∘ entry line = content := rfl

theorem below_below (p q : List String) (l : UseLeaf) : (l.below q).below p = l.below (p ++ q) := by
  simp [below]

end UseLeaf

namespace UseTree

mutual

/-- **The leaves of a tree**, from left to right. -/
def leaves : UseTree → List UseLeaf
  | name path => [⟨[], path, none, false⟩]
  | renamed path asName => [⟨[], path, some asName, false⟩]
  | glob path => [⟨[], path, none, true⟩]
  | list path trees => (leavesOfAll trees).map (UseLeaf.below path)

/-- The leaves of several trees. -/
def leavesOfAll : List UseTree → List UseLeaf
  | [] => []
  | t :: r => leaves t ++ leavesOfAll r

end

mutual

theorem entriesBelow_eq_map (line : Nat) (above : List String) :
    ∀ t : UseTree, t.entriesBelow line above = t.leaves.map fun l => (l.below above).entry line
  | name path => by simp [entriesBelow, leaves, UseLeaf.entry, UseLeaf.whole, UseLeaf.below, pathUnder]
  | renamed path asName => by simp [entriesBelow, leaves, UseLeaf.entry, UseLeaf.whole, UseLeaf.below, pathUnder]
  | glob path => by simp [entriesBelow, leaves, UseLeaf.entry, UseLeaf.whole, UseLeaf.below, pathUnder]
  | list path trees => by
    rw [entriesBelow, entriesOfAll_eq_map line (above ++ path) trees, leaves, List.map_map]
    exact List.map_congr_left fun l _ => by rw [Function.comp_apply, UseLeaf.below_below]

theorem entriesOfAll_eq_map (line : Nat) (above : List String) :
    ∀ ts : List UseTree, entriesOfAll line above ts = (leavesOfAll ts).map fun l => (l.below above).entry line
  | [] => by simp [entriesOfAll, leavesOfAll]
  | t :: r => by
    rw [entriesOfAll, entriesBelow_eq_map line above t, entriesOfAll_eq_map line above r, leavesOfAll,
      List.map_append]

end

/-- **A tree stands for one entry at each of its leaves**, from left to right. -/
theorem entries_eq_map (line : Nat) (t : UseTree) : t.entries line = t.leaves.map (UseLeaf.entry line) :=
  entriesBelow_eq_map line [] t

theorem leavesOfAll_eq_flatMap (trees : List UseTree) : leavesOfAll trees = trees.flatMap leaves := by
  induction trees with
  | nil => simp [leavesOfAll]
  | cons t r ih => simp [leavesOfAll, ih]

/-- What a list stands for: what its trees do, below its path. -/
theorem contents_list (p : List String) (trees : List UseTree) :
    (list p trees).leaves.map UseLeaf.content = trees.flatMap fun t => t.leaves.map fun l => (l.below p).content := by
  rw [leaves, leavesOfAll_eq_flatMap, List.map_map, List.map_flatMap]
  rfl

/-! ## A path before a tree -/

/-- The tree with a path before it. -/
def under (p : List String) : UseTree → UseTree
  | name path => name (p ++ path)
  | renamed path asName => renamed (p ++ path) asName
  | glob path => glob (p ++ path)
  | list path trees => list (p ++ path) trees

/-- The tree is one leaf, which stands for the path above it. -/
def IsSelf : UseTree → Prop
  | name path | renamed path _ | glob path => path = ["self"]
  | list _ _ => False

/-- **A path stands before a list or before each of its trees**, unless the tree is a lone `self`. -/
theorem entriesBelow_eq {p : List String} {t : UseTree} (h : p = [] ∨ ¬ t.IsSelf) (line : Nat) :
    t.entriesBelow line p = (t.under p).entries line := by
  have hleaf : ∀ path, p = [] ∨ path ≠ ["self"] → pathUnder p path = pathUnder [] (p ++ path) := by
    rintro path (rfl | hpath)
    · rfl
    · simp [pathUnder, hpath]
  cases t with
  | name path => simp only [entries, under, entriesBelow, hleaf path h]
  | renamed path asName => simp only [entries, under, entriesBelow, hleaf path h]
  | glob path => simp only [entries, under, entriesBelow, hleaf path h]
  | list path trees => simp only [entries, under, entriesBelow, List.nil_append]

/-- So it does, leaf by leaf. -/
theorem contents_under {p : List String} {t : UseTree} (h : p = [] ∨ ¬ t.IsSelf) :
    (t.leaves.map fun l => (l.below p).content) = (t.under p).leaves.map UseLeaf.content := by
  have hentries := congrArg (List.map UseEntry.content) (entriesBelow_eq h 0)
  rwa [entriesBelow_eq_map, entries_eq_map, List.map_map, List.map_map, UseLeaf.content_entry] at hentries

end UseTree

/-! ## Paths -/

/-- The lexeme is a word. -/
def Lexeme.IsWord (l : Lexeme) : Prop := l.kind = .word ∧ isWord l.text.toList = true

instance : DecidablePred Lexeme.IsWord :=
  fun l => inferInstanceAs (Decidable (l.kind = .word ∧ isWord l.text.toList = true))

/-- Words, each behind colons. -/
inductive IsTail : List String → List Lexeme → Prop where
  | nil : IsTail [] []
  | cons {colons word : Lexeme} {path : List String} {r : List Lexeme} (hcolons : colons.text = "::")
      (hword : word.IsWord) (hr : IsTail path r) : IsTail (word.text :: path) (colons :: word :: r)

/-- **A path of words**, perhaps with colons before it, or no path at all. -/
inductive IsPath : List String → List Lexeme → Prop where
  | first {word : Lexeme} {path : List String} {r : List Lexeme} (hword : word.IsWord) (hr : IsTail path r) :
      IsPath (word.text :: path) (word :: r)
  | tail {path : List String} {r : List Lexeme} (hr : IsTail path r) : IsPath path r

/-- One part of a path: a word, or types in angle brackets. -/
inductive IsPart : List Lexeme → Prop where
  | word {l : Lexeme} (hword : l.IsWord) : IsPart [l]
  | angle {opening closing : Lexeme} {inner : List Lexeme} (hopen : opening.text = "<")
      (hclose : closing.text = ">") : IsPart (opening :: (inner ++ [closing]))

/-- Parts of a path, each behind colons. -/
inductive ArePartsBehind : List Lexeme → Prop where
  | nil : ArePartsBehind []
  | cons {colons : Lexeme} {part r : List Lexeme} (hcolons : colons.text = "::") (hpart : IsPart part)
      (hr : ArePartsBehind r) : ArePartsBehind (colons :: (part ++ r))

/-- **A path of any kind**, which may begin with a variable of a macro. -/
inductive IsAnyPath : List Lexeme → Prop where
  | part {part r : List Lexeme} (hpart : IsPart part) (hr : ArePartsBehind r) : IsAnyPath (part ++ r)
  | macroVariable {l : Lexeme} {r : List Lexeme} (hl : l.kind = .variable) (hr : ArePartsBehind r) : IsAnyPath (l :: r)
  | tail {r : List Lexeme} (hr : ArePartsBehind r) : IsAnyPath r

/-- The lexeme belongs to no path of words. -/
def Lexeme.IsOdd (l : Lexeme) : Prop := l.text = "<" ∨ l.kind = .variable

/-- **How a path is written**: in words, or in another way; then it is cut from its text, together with the
colons behind it. -/
inductive SpellsPath (path : List String) (ls joint : List Lexeme) : Prop where
  | words (hwords : IsPath path ls)
  | text (hpath : IsAnyPath ls) (hodd : ∃ l ∈ ls, l.IsOdd)
      (htext : path = splitPath (String.ofList (spanned (ls ++ joint))))

/-! ## Trees -/

/-- What stands between a path and a brace or a star: colons, or nothing where there is no path. -/
def Joins (path : List String) (joint : List Lexeme) : Prop :=
  (∃ colons : Lexeme, joint = [colons] ∧ colons.text = "::") ∨ joint = [] ∧ path = []

mutual

/-- **How a tree is written.** -/
inductive UseTree.Spells : UseTree → List Lexeme → Prop where
  | name {path : List String} {ls : List Lexeme} (hpath : SpellsPath path ls []) (hne : path ≠ []) :
      Spells (.name path) ls
  | renamed {path : List String} {ls : List Lexeme} {keyword newName : Lexeme} (hpath : SpellsPath path ls [])
      (hne : path ≠ []) (hkeyword : keyword.text = "as") (hname : newName.IsWord) :
      Spells (.renamed path newName.text) (ls ++ [keyword, newName])
  | glob {path : List String} {ls joint : List Lexeme} {star : Lexeme} (hpath : SpellsPath path ls joint)
      (hjoint : Joins path joint) (hstar : star.text = "*") : Spells (.glob path) (ls ++ (joint ++ [star]))
  | list {path : List String} {trees : List UseTree} {ls joint inner : List Lexeme} {opening closing : Lexeme}
      (hpath : SpellsPath path ls []) (hjoint : Joins path joint) (hopen : opening.text = openBrace)
      (htrees : SpellsAll trees inner) (hclose : closing.text = closeBrace) :
      Spells (.list path trees) (ls ++ (joint ++ opening :: (inner ++ [closing])))
  /-- A lone comma may stand in a list without trees. -/
  | comma {path : List String} {ls joint : List Lexeme} {opening comma closing : Lexeme}
      (hpath : SpellsPath path ls []) (hjoint : Joins path joint) (hopen : opening.text = openBrace)
      (hcomma : comma.text = ",") (hclose : closing.text = closeBrace) :
      Spells (.list path []) (ls ++ (joint ++ opening :: ([comma] ++ [closing])))

/-- Several trees, with commas between them and perhaps behind the last. -/
inductive UseTree.SpellsAll : List UseTree → List Lexeme → Prop where
  | nil : SpellsAll [] []
  | last {t : UseTree} {ls : List Lexeme} (ht : Spells t ls) : SpellsAll [t] ls
  | cons {t : UseTree} {r : List UseTree} {ls ls' : List Lexeme} {comma : Lexeme} (ht : Spells t ls)
      (hcomma : comma.text = ",") (hr : SpellsAll r ls') : SpellsAll (t :: r) (ls ++ comma :: ls')

end

/-! ## Declarations -/

/-- **A visibility**, or none. -/
inductive IsVisibility : List Lexeme → Prop where
  | none : IsVisibility []
  | crate {l : Lexeme} (hl : l.text = "crate") : IsVisibility [l]
  | pub {l : Lexeme} (hl : l.text = "pub") : IsVisibility [l]
  | scope {l opening word closing : Lexeme} (hl : l.text = "pub") (hopen : opening.text = "(")
      (hword : word.text ∈ pathKeywords) (hclose : closing.text = ")") : IsVisibility [l, opening, word, closing]
  | path {l opening keyword closing : Lexeme} {inner : List Lexeme} (hl : l.text = "pub") (hopen : opening.text = "(")
      (hkeyword : keyword.text = "in") (hclose : closing.text = ")") :
      IsVisibility (l :: opening :: keyword :: (inner ++ [closing]))

/-- **A `use` declaration** with its visibility, its tree and its semicolon. -/
inductive IsUse (tree : UseTree) : List Lexeme → Prop where
  | intro {front body : List Lexeme} {keyword semicolon : Lexeme} (hfront : IsVisibility front)
      (hkeyword : keyword.text = "use") (htree : tree.Spells body) (hend : semicolon.text = ";") :
      IsUse tree (front ++ keyword :: (body ++ [semicolon]))

/-! ## Paths and their texts -/

section Text

variable {path w : List String} {ls joint r : List Lexeme} {part bs q : List Char}

/-- The lexemes stand behind white space. -/
def AreSpaced (ls : List Lexeme) : Prop := ∀ l ∈ ls, ∀ c ∈ l.space, isBlank c = true

theorem areSpaced_append : AreSpaced (ls ++ r) ↔ AreSpaced ls ∧ AreSpaced r := List.forall_mem_append

theorem areSpaced_cons {l : Lexeme} : AreSpaced (l :: r) ↔ (∀ c ∈ l.space, isBlank c = true) ∧ AreSpaced r :=
  List.forall_mem_cons

theorem not_mem_of_blanks (h : ∀ c ∈ bs, isBlank c = true) : ':' ∉ bs :=
  fun hmem => absurd (h ':' hmem) (by decide)

/-- A text is cut at colons. -/
theorem splitPath_append_colons (h : ':' ∉ part) (q : List Char) :
    splitPath (String.ofList (part ++ ':' :: ':' :: q)) =
      splitPath (String.ofList part) ++ splitPath (String.ofList q) := by
  unfold splitPath
  rw [String.toList_ofList, String.toList_ofList, String.toList_ofList, splitColons_append h,
    splitColons_of_not_mem h, ← List.map_append, ← List.filter_append, ← List.map_append, List.singleton_append]

/-- Blanks behind a text do not count. -/
theorem splitPath_append_blanks (cs : List Char) (h : ∀ c ∈ bs, isBlank c = true) :
    splitPath (String.ofList (cs ++ bs)) = splitPath (String.ofList cs) := by
  have hsqueeze : squeeze bs = [] := List.filter_eq_nil_iff.2 fun c hc => by simp [h c hc]
  have hparts : (splitColons (cs ++ bs)).map squeeze = (splitColons cs).map squeeze := by
    fun_induction splitColons cs with
    | case1 =>
      rw [List.nil_append, splitColons_of_not_mem (not_mem_of_blanks h), List.map_singleton, hsqueeze]
      rfl
    | case2 r ih => simpa [splitColons] using ih
    | case3 c r hne hnil => exact absurd hnil (splitColons_ne_nil r)
    | case4 c r hne part parts hsplit ih =>
      -- the blanks do not make a sign of a colon that ends the text
      have hsign : ∀ q, c = ':' → r ++ bs = ':' :: q → False := by
        intro q hc hq
        cases r with
        | nil => exact absurd (h ':' (by simp_all)) (by decide)
        | cons d r => exact hne r hc (by rw [(List.cons.inj hq).1])
      cases hrest : splitColons (r ++ bs) with
      | nil => exact absurd hrest (splitColons_ne_nil _)
      | cons first others =>
        have hcut : splitColons (c :: (r ++ bs)) = (c :: first) :: others := by
          rw [splitColons, hrest]
          exact hsign
        rw [hrest, hsplit, List.map_cons, List.map_cons] at ih
        obtain ⟨hfirst, hothers⟩ := List.cons.inj ih
        have hsqueezed : squeeze (c :: first) = squeeze (c :: part) := by
          unfold squeeze at hfirst ⊢
          rw [List.filter_cons, List.filter_cons, hfirst]
        rw [List.cons_append, hcut, List.map_cons, List.map_cons, hsqueezed, hothers]
  unfold splitPath
  rw [String.toList_ofList, String.toList_ofList, hparts]

/-- A word is a path by itself. -/
theorem splitPath_of_isWord {s : String} (hs : isWord s.toList = true) (h : ∀ c ∈ bs, isBlank c = true) :
    splitPath (String.ofList (bs ++ s.toList)) = [s] := by
  have hcolon : ':' ∉ bs ++ s.toList := fun hmem => (List.mem_append.1 hmem).elim
    (not_mem_of_blanks h) (not_mem_of_isWord hs (by decide) (by decide))
  have hsqueeze : squeeze (bs ++ s.toList) = s.toList := by
    have hbs : squeeze bs = [] := List.filter_eq_nil_iff.2 fun c hc => by simp [h c hc]
    have hword : squeeze s.toList = s.toList := squeeze_of_forall (isBlank_of_isWord hs)
    unfold squeeze at hbs hword ⊢
    rw [List.filter_append, hbs, hword, List.nil_append]
  have hne : s.toList.isEmpty = false := List.isEmpty_eq_false_iff.2 (ne_nil_of_isWord hs)
  unfold splitPath
  rw [String.toList_ofList, splitColons_of_not_mem hcolon]
  simp [hsqueeze, hne]

/-- **Words behind colons are cut off one by one.**  The text behind them adds the same as it does to any text
without colons. -/
theorem splitPath_append_tail (h : IsTail path r) (hr : AreSpaced r)
    (hq : ∀ part, ':' ∉ part → splitPath (String.ofList (part ++ q)) = splitPath (String.ofList part) ++ w)
    (hpart : ':' ∉ part) :
    splitPath (String.ofList (part ++ (print r ++ q))) = splitPath (String.ofList part) ++ (path ++ w) := by
  induction h generalizing part with
  | nil => exact hq part hpart
  | @cons colons word path r hcolons hword _ ih =>
    obtain ⟨hcolonsSpace, hrest⟩ := areSpaced_cons.1 hr
    obtain ⟨hwordSpace, hrest⟩ := areSpaced_cons.1 hrest
    have hfirst : ':' ∉ part ++ colons.space := fun hmem =>
      (List.mem_append.1 hmem).elim hpart (not_mem_of_blanks hcolonsSpace)
    have hsecond : ':' ∉ word.space ++ word.text.toList := fun hmem => (List.mem_append.1 hmem).elim
      (not_mem_of_blanks hwordSpace) (not_mem_of_isWord hword.2 (by decide) (by decide))
    have hcut : part ++ (print (colons :: word :: r) ++ q) =
        (part ++ colons.space) ++ ':' :: ':' :: ((word.space ++ word.text.toList) ++ (print r ++ q)) := by
      simp [hcolons]
    rw [hcut, splitPath_append_colons hfirst, splitPath_append_blanks part hcolonsSpace, ih hrest hsecond,
      splitPath_of_isWord hword.2 hwordSpace]
    rfl

/-- The text of a run that goes on. -/
theorem spanned_append (hne : ls ≠ []) (r : List Lexeme) : spanned (ls ++ r) = spanned ls ++ print r := by
  cases ls with
  | nil => exact absurd rfl hne
  | cons l ls => simp [spanned]

/-- **A path of words is cut into its words**, whatever text behind it adds nothing. -/
theorem IsPath.splitPath_append_eq (h : IsPath path ls) (hls : AreSpaced ls)
    (hq : ∀ part, ':' ∉ part → splitPath (String.ofList (part ++ q)) = splitPath (String.ofList part)) :
    splitPath (String.ofList (spanned ls ++ q)) = path := by
  have hq : ∀ part, ':' ∉ part → splitPath (String.ofList (part ++ q)) = splitPath (String.ofList part) ++ [] :=
    fun part hpart => (hq part hpart).trans (List.append_nil _).symm
  cases h with
  | @first word path r hword hr =>
    have hword' := splitPath_of_isWord hword.2 (List.forall_mem_nil _)
    rw [List.nil_append] at hword'
    have hcut := splitPath_append_tail hr (areSpaced_cons.1 hls).2 hq
      (not_mem_of_isWord hword.2 (by decide) (by decide))
    rw [hword', List.append_nil] at hcut
    rw [spanned, List.append_assoc]
    exact hcut
  | tail hr =>
    cases hr with
    | nil => exact hq [] List.not_mem_nil
    | @cons colons word path r hcolons hword hr =>
      -- colons before the first word begin with no part at all
      obtain ⟨hwordSpace, hrest⟩ := areSpaced_cons.1 (areSpaced_cons.1 hls).2
      have hcut : spanned (colons :: word :: r) ++ q =
          [] ++ ':' :: ':' :: ((word.space ++ word.text.toList) ++ (print r ++ q)) := by
        simp [spanned, hcolons]
      have hsecond : ':' ∉ word.space ++ word.text.toList := fun hmem => (List.mem_append.1 hmem).elim
        (not_mem_of_blanks hwordSpace) (not_mem_of_isWord hword.2 (by decide) (by decide))
      rw [hcut, splitPath_append_colons List.not_mem_nil, splitPath_append_tail hr hrest hq hsecond,
        splitPath_of_isWord hword.2 hwordSpace, List.append_nil]
      rfl

/-- A path of words is cut into its words. -/
theorem IsPath.splitPath_eq (h : IsPath path ls) (hls : AreSpaced ls) :
    splitPath (String.ofList (spanned ls)) = path := by
  have hcut := h.splitPath_append_eq (q := []) hls fun part _ => by rw [List.append_nil]
  rwa [List.append_nil] at hcut

theorem exists_isTail (h : ArePartsBehind r) : (∃ path, IsTail path r) ∨ ∃ l ∈ r, l.IsOdd := by
  induction h with
  | nil => exact .inl ⟨[], .nil⟩
  | @cons colons part r hcolons hpart _ ih =>
    cases hpart with
    | word hword =>
      refine ih.imp (fun hpath => ?_) fun hodd => ?_
      · obtain ⟨path, hpath⟩ := hpath
        exact ⟨_, .cons hcolons hword hpath⟩
      · obtain ⟨l, hl, hodd⟩ := hodd
        exact ⟨l, by simp [hl], hodd⟩
    | @angle opening _ _ hopen _ => exact .inr ⟨opening, by simp, .inl hopen⟩

/-- A path is one of words, or something in it is odd. -/
theorem exists_isPath (h : IsAnyPath ls) : (∃ path, IsPath path ls) ∨ ∃ l ∈ ls, l.IsOdd := by
  cases h with
  | @part part r hpart hr =>
    cases hpart with
    | word hword =>
      refine (exists_isTail hr).imp (fun hpath => ?_) fun hodd => ?_
      · obtain ⟨path, hpath⟩ := hpath
        exact ⟨_, .first hword hpath⟩
      · obtain ⟨l, hl, hodd⟩ := hodd
        exact ⟨l, by simp [hl], hodd⟩
    | @angle opening _ _ hopen _ => exact .inr ⟨opening, by simp, .inl hopen⟩
  | macroVariable hl _ => exact .inr ⟨_, List.mem_cons_self, .inr hl⟩
  | tail hr =>
    refine (exists_isTail hr).imp (fun hpath => ?_) id
    obtain ⟨path, hpath⟩ := hpath
    exact ⟨path, .tail hpath⟩

/-- **A path is written as the pieces that its text is cut into.** -/
theorem IsAnyPath.spells (h : IsAnyPath ls) (hls : AreSpaced ls) :
    SpellsPath (splitPath (String.ofList (spanned ls))) ls [] := by
  rcases exists_isPath h with ⟨path, hpath⟩ | hodd
  · rw [hpath.splitPath_eq hls]
    exact .words hpath
  · exact .text h hodd (by rw [List.append_nil])

section Star

variable {star : Lexeme}

/-- The text of a path, up to the star behind it. -/
theorem spanned_star (hne : ls ≠ []) (hstar : star.text = "*") :
    (spanned (ls ++ (joint ++ [star]))).dropLast = spanned ls ++ (print joint ++ star.space) := by
  have hprint : print (joint ++ [star]) = (print joint ++ star.space) ++ ['*'] := by simp [hstar]
  rw [spanned_append hne, hprint, ← List.append_assoc, List.dropLast_concat]

/-- Colons behind a text add nothing to its segments. -/
theorem splitPath_append_joint (hjoint : Joins path joint) (hls : AreSpaced (joint ++ [star])) (hpart : ':' ∉ part) :
    splitPath (String.ofList (part ++ (print joint ++ star.space))) = splitPath (String.ofList part) := by
  obtain ⟨hjointSpace, hstarSpace⟩ := areSpaced_append.1 hls
  have hstarSpace := (areSpaced_cons.1 hstarSpace).1
  rcases hjoint with ⟨colons, rfl, hcolons⟩ | ⟨rfl, -⟩
  · have hcolonsSpace := (areSpaced_cons.1 hjointSpace).1
    have hcolon : ':' ∉ part ++ colons.space := fun hmem =>
      (List.mem_append.1 hmem).elim hpart (not_mem_of_blanks hcolonsSpace)
    have hcut : part ++ (print [colons] ++ star.space) =
        (part ++ colons.space) ++ ':' :: ':' :: ([] ++ star.space) := by simp [hcolons]
    rw [hcut, splitPath_append_colons hcolon, splitPath_append_blanks part hcolonsSpace,
      splitPath_append_blanks [] hstarSpace]
    exact List.append_nil _
  · exact splitPath_append_blanks part hstarSpace

/-- **A path of words before a star** is cut into its words. -/
theorem splitPath_star (hpath : IsPath path ls) (hls : AreSpaced (ls ++ (joint ++ [star]))) (hstar : star.text = "*")
    (hjoint : Joins path joint) : splitPath (String.ofList (spanned (ls ++ (joint ++ [star]))).dropLast) = path := by
  obtain ⟨hspaced, hbehind⟩ := areSpaced_append.1 hls
  rcases eq_or_ne ls [] with rfl | hne
  · -- only colons, or nothing at all, stand before the star
    have hnil : path = [] := by
      cases hpath with
      | tail hr => cases hr; rfl
    rcases hjoint with ⟨colons, rfl, hcolons⟩ | ⟨rfl, -⟩
    · have hstarSpace := (areSpaced_cons.1 (areSpaced_cons.1 hbehind).2).1
      have hcut : (spanned ([] ++ ([colons] ++ [star]))).dropLast = [] ++ ':' :: ':' :: ([] ++ star.space) := by
        have hspanned : spanned ([] ++ ([colons] ++ [star])) = (':' :: ':' :: star.space) ++ ['*'] := by
          simp [spanned, hcolons, hstar]
        rw [hspanned, List.dropLast_concat]
        rfl
      rw [hcut, splitPath_append_colons List.not_mem_nil, splitPath_append_blanks [] hstarSpace, hnil]
      rfl
    · have hcut : (spanned ([] ++ ([] ++ [star]))).dropLast = [] := by simp [spanned, hstar]
      rw [hcut, hnil]
      rfl
  · rw [spanned_star hne hstar, hpath.splitPath_append_eq hspaced fun _ => splitPath_append_joint hjoint hbehind]

/-- **A path before a star** is written as the pieces that its text up to the star is cut into. -/
theorem IsAnyPath.spells_star (h : IsAnyPath ls) (hls : AreSpaced (ls ++ (joint ++ [star]))) (hstar : star.text = "*")
    (hjoint : Joins (splitPath (String.ofList (spanned ls))) joint) :
    ∃ path, path = splitPath (String.ofList (spanned (ls ++ (joint ++ [star]))).dropLast) ∧
      SpellsPath path ls joint ∧ Joins path joint := by
  obtain ⟨hspaced, hbehind⟩ := areSpaced_append.1 hls
  rcases exists_isPath h with ⟨path, hpath⟩ | hodd
  · rw [hpath.splitPath_eq hspaced] at hjoint
    exact ⟨path, (splitPath_star hpath hls hstar hjoint).symm, .words hpath, hjoint⟩
  · have hne : ls ≠ [] := by
      rintro rfl
      obtain ⟨l, hl, -⟩ := hodd
      exact absurd hl List.not_mem_nil
    have hstarSpace := (areSpaced_cons.1 (areSpaced_append.1 hbehind).2).1
    refine ⟨_, rfl, .text h hodd ?_, ?_⟩
    · rw [spanned_star hne hstar, spanned_append hne, ← List.append_assoc, splitPath_append_blanks _ hstarSpace]
    · refine hjoint.imp id fun hnil => ⟨hnil.1, ?_⟩
      rw [spanned_star hne hstar, hnil.1, print_nil, List.nil_append, splitPath_append_blanks _ hstarSpace]
      exact hnil.2

end Star

end Text

/-! ## Trees behind a path -/

section Under

variable {p path : List String} {ps ls r : List Lexeme} {colons : Lexeme}

theorem IsTail.append (h : IsTail p ps) (hr : IsTail path r) : IsTail (p ++ path) (ps ++ r) := by
  induction h with
  | nil => exact hr
  | cons hcolons hword _ ih => exact .cons hcolons hword ih

theorem IsPath.append (h : IsPath p ps) (hr : IsTail path r) : IsPath (p ++ path) (ps ++ r) := by
  cases h with
  | first hword htail => exact .first hword (htail.append hr)
  | tail htail => exact .tail (htail.append hr)

theorem SpellsPath.isPath {joint : List Lexeme} (h : SpellsPath path ls joint) (hodd : ∀ l ∈ ls, ¬ l.IsOdd) :
    IsPath path ls := by
  cases h with
  | words hwords => exact hwords
  | text _ hsome _ =>
    obtain ⟨l, hl, hl'⟩ := hsome
    exact absurd hl' (hodd l hl)

/-- A path that begins with no colons goes on with one before it. -/
theorem IsPath.behind (h : IsPath path ls) (hfirst : ∀ l ∈ ls.head?, l.text ≠ "::") (hp : IsPath p ps)
    (hcolons : colons.text = "::") : path = [] ∧ ls = [] ∨ path ≠ [] ∧ IsPath (p ++ path) (ps ++ colons :: ls) := by
  cases h with
  | first hword hr => exact .inr ⟨List.cons_ne_nil _ _, hp.append (.cons hcolons hword hr)⟩
  | tail hr =>
    cases hr with
    | nil => exact .inl ⟨rfl, rfl⟩
    | cons hcolons' _ _ => exact absurd hcolons' (hfirst _ rfl)

/-- So does what stands between a path and a star or a brace. -/
theorem exists_joins_behind {joint tail : List Lexeme} {l : Lexeme} (h : IsPath path ls) (hjoint : Joins path joint)
    (hfirst : ∀ k ∈ (ls ++ (joint ++ l :: tail)).head?, k.text ≠ "::") (hp : IsPath p ps)
    (hcolons : colons.text = "::") : ∃ ls' joint',
      ps ++ colons :: (ls ++ (joint ++ l :: tail)) = ls' ++ (joint' ++ l :: tail) ∧ IsPath (p ++ path) ls' ∧
        Joins (p ++ path) joint' := by
  have hhead : ∀ k ∈ ls.head?, k.text ≠ "::" := fun k hk => hfirst k (by rw [List.head?_append, hk]; rfl)
  rcases h.behind hhead hp hcolons with ⟨rfl, rfl⟩ | ⟨hne, hbehind⟩
  · -- nothing but the star or the brace stands there, and the colons come before it
    rcases hjoint with ⟨sign, rfl, hsign⟩ | ⟨rfl, -⟩
    · exact absurd hsign (hfirst sign rfl)
    · exact ⟨ps, [colons], by simp, by rwa [List.append_nil], .inl ⟨colons, rfl, hcolons⟩⟩
  · exact ⟨_, joint, by simp, hbehind, hjoint.imp id fun hnil => absurd hnil.2 hne⟩

/-- **A tree is written behind a path** as it is by itself, if it begins with no colons. -/
theorem UseTree.Spells.under {t : UseTree} (h : t.Spells ls) (hodd : ∀ l ∈ ls, ¬ l.IsOdd)
    (hfirst : ∀ l ∈ ls.head?, l.text ≠ "::") (hp : IsPath p ps) (hcolons : colons.text = "::") :
    (t.under p).Spells (ps ++ colons :: ls) := by
  have hname : ∀ {path ls}, SpellsPath path ls [] → path ≠ [] → (∀ l ∈ ls, ¬ l.IsOdd) →
      (∀ l ∈ ls.head?, l.text ≠ "::") → SpellsPath (p ++ path) (ps ++ colons :: ls) [] ∧ p ++ path ≠ [] := by
    intro path ls hpath hne hodd hfirst
    rcases (hpath.isPath hodd).behind hfirst hp hcolons with ⟨hnil, -⟩ | ⟨-, hbehind⟩
    · exact absurd hnil hne
    · exact ⟨.words hbehind, by simp [hne]⟩
  cases h with
  | name hpath hne =>
    obtain ⟨hpath, hne⟩ := hname hpath hne hodd hfirst
    exact .name hpath hne
  | @renamed path ls keyword newName hpath hne hkeyword hnew =>
    have hodd := (List.forall_mem_append.1 hodd).1
    obtain ⟨hpath, hne⟩ := hname hpath hne hodd fun l hl => hfirst l (by rw [List.head?_append, hl]; rfl)
    have hshape : ps ++ colons :: (ls ++ [keyword, newName]) = (ps ++ colons :: ls) ++ [keyword, newName] := by simp
    rw [hshape]
    exact .renamed hpath hne hkeyword hnew
  | @glob path ls joint star hpath hjoint hstar =>
    have hpath := hpath.isPath (List.forall_mem_append.1 hodd).1
    obtain ⟨ls', joint', hshape, hpath, hjoint⟩ := exists_joins_behind hpath hjoint hfirst hp hcolons
    rw [hshape]
    exact .glob (.words hpath) hjoint hstar
  | @list path trees ls joint inner opening closing hpath hjoint hopen htrees hclose =>
    have hpath := hpath.isPath (List.forall_mem_append.1 hodd).1
    obtain ⟨ls', joint', hshape, hpath, hjoint⟩ := exists_joins_behind hpath hjoint hfirst hp hcolons
    rw [hshape]
    exact .list (.words hpath) hjoint hopen htrees hclose
  | @comma path ls joint opening comma closing hpath hjoint hopen hcomma hclose =>
    have hpath := hpath.isPath (List.forall_mem_append.1 hodd).1
    obtain ⟨ls', joint', hshape, hpath, hjoint⟩ := exists_joins_behind hpath hjoint hfirst hp hcolons
    rw [hshape]
    exact .comma (.words hpath) hjoint hopen hcomma hclose

end Under

end ModelPool.Source
