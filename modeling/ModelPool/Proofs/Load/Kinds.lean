import ModelPool.Proofs.Check.Origins
import ModelPool.Proofs.Load.Declared
import ModelPool.Proofs.Load.Unresolved
import ModelPool.Proofs.Source.Words

/-!
# Proofs/Load/Kinds — targets of two kinds that print alike

    String        known everywhere          no other target prints so
    Self::T       a path below Self    ──┐
    std::c::T     a path of the library ─┴─ also a type T of a package Self, std::c

The text of a target does not say for what kind of thing it stands.  In a strict program two targets of
different kinds print alike only if one of them is declared by a package whose path begins with `Self` or with
a root of the standard library, where the other one begins.

* `TypeTarget.exists_beginsWith` — targets of two kinds that print alike.
* `exists_package_of_text_eq` — the package behind them.
-/

namespace ModelPool

/-- What a path may stand for. -/
inductive TargetKind where
  | builtin
  | generic
  | declared
  | external
  | unresolved
deriving DecidableEq

/-- For what kind of thing a target stands. -/
def TypeTarget.kind : TypeTarget → TargetKind
  | .builtin _ => .builtin
  | .generic _ => .generic
  | .declared _ _ => .declared
  | .external _ => .external
  | .unresolved _ => .unresolved

/-! ## Paths that begin with a word -/

/-- The words that a path may begin with and stand for nothing that a package declares. -/
def rootWords : List String := "Self" :: externalRoots

/-- **A path begins with a word**: it is the word, or a colon stands behind it. -/
def BeginsWith (word path : String) : Prop :=
  path = word ∨ ∃ rest, path.toList = word.toList ++ ':' :: rest

theorem colon_not_mem_of_rootWords {word : String} (h : word ∈ rootWords) : ':' ∉ word.toList := by
  have hall : (rootWords.all fun word => !word.toList.contains ':') = true := by decide
  simpa using List.all_eq_true.1 hall word h

/-- A name that is known everywhere has no colon, and begins with no such word. -/
theorem isBuiltin_apart {name : String} (h : isBuiltin name = true) :
    ':' ∉ name.toList ∧ ∀ word ∈ rootWords, ¬ word.toList <+: name.toList := by
  have hall : ((builtinTypes ++ preludeTraits).all fun name => !name.toList.contains ':' &&
      rootWords.all fun word => !word.toList.isPrefixOf name.toList) = true := by decide +kernel
  have hmem : name ∈ builtinTypes ++ preludeTraits := by
    rw [List.mem_append]
    simpa [isBuiltin] using h
  obtain ⟨hcolon, hwords⟩ := Bool.and_eq_true_iff.1 (List.all_eq_true.1 hall name hmem)
  refine ⟨by simpa using hcolon, fun word hword hprefix => ?_⟩
  have hnot := List.all_eq_true.1 hwords word hword
  rw [List.isPrefixOf_iff_prefix.2 hprefix] at hnot
  exact absurd hnot (by decide)

/-- The text of a path is its first segment, with a colon behind it if there are more. -/
theorem toList_pathText_first (first : String) (rest : List String) :
    (pathText (first :: rest)).toList = first.toList ∨
      ∃ r, (pathText (first :: rest)).toList = first.toList ++ ':' :: ':' :: r := by
  rw [toList_pathText_cons]
  cases rest with
  | nil => exact .inl (by simp)
  | cons second rest => exact .inr ⟨_, by rw [List.flatMap_cons, List.cons_append, List.cons_append]⟩

/-- Two texts without a colon are one if a colon stands behind each in the same text. -/
theorem eq_of_append_colon {cs ds rest rest' : List Char} (hc : ':' ∉ cs) (hd : ':' ∉ ds)
    (h : cs ++ ':' :: rest = ds ++ ':' :: rest') : cs = ds := by
  have hbefore : ∀ {cs rest : List Char}, ':' ∉ cs → (cs ++ ':' :: rest).takeWhile (· != ':') = cs := by
    intro cs rest hcs
    have hpass : ∀ c ∈ cs, (c != ':') = true := fun c hmem => bne_iff_ne.2 fun heq => hcs (heq ▸ hmem)
    rw [List.takeWhile_append_of_pos hpass]
    simp
  rw [← hbefore hc, h, hbefore hd]

/-- Two paths that print alike begin with the same word. -/
theorem first_eq_of_pathText_eq {first first' : String} {rest rest' : List String}
    (h : ':' ∉ first.toList) (h' : ':' ∉ first'.toList)
    (htext : pathText (first :: rest) = pathText (first' :: rest')) : first = first' := by
  have hlist := congrArg String.toList htext
  rw [← String.toList_inj]
  rcases toList_pathText_first first rest with hfirst | ⟨r, hfirst⟩ <;>
    rcases toList_pathText_first first' rest' with hsecond | ⟨r', hsecond⟩ <;>
      rw [hfirst, hsecond] at hlist
  · exact hlist
  · exact absurd (hlist ▸ List.mem_append_right _ List.mem_cons_self) h
  · exact absurd (hlist ▸ List.mem_append_right _ List.mem_cons_self) h'
  · exact eq_of_append_colon h h' hlist

/-- **A declaration that prints as a path** lies in a package whose path begins as this path does. -/
theorem beginsWith_of_text_eq {owner name first : String} {rest : List String} (h : ':' ∉ first.toList)
    (htext : owner ++ "::" ++ name = pathText (first :: rest)) : BeginsWith first owner := by
  have hlist : owner.toList ++ ':' :: ':' :: name.toList = (pathText (first :: rest)).toList := by
    simpa using congrArg String.toList htext
  rcases toList_pathText_first first rest with hfirst | ⟨r, hfirst⟩
  · exact absurd (hfirst ▸ hlist ▸ List.mem_append_right _ List.mem_cons_self) h
  · rw [hfirst] at hlist
    rcases List.append_eq_append_iff.1 hlist with ⟨d, hd, hrest⟩ | ⟨d, hd, hrest⟩
    · cases d with
      | nil => exact .inl (String.toList_inj.1 (by simpa using hd.symm))
      | cons c d =>
        obtain ⟨rfl, -⟩ := List.cons.inj hrest
        exact absurd (hd ▸ List.mem_append_right _ List.mem_cons_self) h
    · cases d with
      | nil => exact .inl (String.toList_inj.1 (by simpa using hd))
      | cons c d =>
        obtain ⟨rfl, -⟩ := List.cons.inj hrest
        exact .inr ⟨d, hd⟩

/-! ## Targets of two kinds -/

namespace TypeTarget

variable {s : Surroundings} {a b : TypeTarget}

/-- What is known of the text of a target, in a place without type parameters. -/
theorem IsGrounded.text_cases (h : a.IsGrounded s []) (hresolved : a.IsResolved) :
    (∃ name, a = .builtin name ∧ isBuiltin name = true) ∨ (∃ owner name, a = .declared owner name) ∨
      ∃ word ∈ rootWords, ∃ rest, a.text = pathText (word :: rest) ∧
        (a.kind = .generic ∧ word = "Self" ∨ a.kind = .external ∧ word ∈ externalRoots) := by
  cases a with
  | builtin name => exact .inl ⟨name, rfl, h⟩
  | declared owner name => exact .inr (.inl ⟨owner, name, rfl⟩)
  | generic path =>
    obtain ⟨first, rest, rfl, hfirst⟩ := h
    obtain rfl := hfirst.resolve_right List.not_mem_nil
    exact .inr (.inr ⟨_, List.mem_cons_self, rest, rfl, .inl ⟨rfl, rfl⟩⟩)
  | external path =>
    obtain ⟨first, rest, rfl, hfirst⟩ := h
    have hroot : first ∈ externalRoots := by simpa using hfirst
    exact .inr (.inr ⟨first, List.mem_cons_of_mem _ hroot, rest, rfl, .inr ⟨rfl, hroot⟩⟩)
  | unresolved path => exact absurd rfl (hresolved path)

/-- A name that is known everywhere prints as nothing else does. -/
theorem text_ne_builtin {name : String} (hname : isBuiltin name = true) (h : a.IsGrounded s [])
    (hresolved : a.IsResolved) (hkind : a.kind ≠ .builtin) : a.text ≠ name := by
  obtain ⟨hcolon, hwords⟩ := isBuiltin_apart hname
  rintro rfl
  rcases h.text_cases hresolved with ⟨_, rfl, -⟩ | ⟨owner, declared, rfl⟩ | ⟨word, hword, rest, htext, -⟩
  · exact hkind rfl
  · exact hcolon (by simp [text])
  · refine hwords word hword ?_
    rw [htext, toList_pathText_cons]
    exact List.prefix_append _ _

/-- A path below `Self` and a path of the library print apart. -/
theorem kind_eq_of_rooted {word word' : String} {rest rest' : List String} (hword : word ∈ rootWords)
    (hword' : word' ∈ rootWords) (htext : pathText (word :: rest) = pathText (word' :: rest'))
    (ha : a.kind = .generic ∧ word = "Self" ∨ a.kind = .external ∧ word ∈ externalRoots)
    (hb : b.kind = .generic ∧ word' = "Self" ∨ b.kind = .external ∧ word' ∈ externalRoots) :
    a.kind = b.kind := by
  have hself : "Self" ∉ externalRoots := by decide
  obtain rfl := first_eq_of_pathText_eq (colon_not_mem_of_rootWords hword)
    (colon_not_mem_of_rootWords hword') htext
  rcases ha with ⟨ha, rfl⟩ | ⟨ha, hroot⟩ <;> rcases hb with ⟨hb, hsame⟩ | ⟨hb, hroot'⟩
  · rw [ha, hb]
  · exact absurd hroot' hself
  · exact absurd (hsame ▸ hroot) hself
  · rw [ha, hb]

/-- **Targets of two kinds that print alike**: one of them is declared by a package whose path begins with
`Self` or with a root of the standard library. -/
theorem exists_beginsWith (ha : a.IsGrounded s []) (hb : b.IsGrounded s []) (haresolved : a.IsResolved)
    (hbresolved : b.IsResolved) (htext : a.text = b.text) (hkind : a.kind ≠ b.kind) :
    ∃ owner name, (a = .declared owner name ∨ b = .declared owner name) ∧
      ∃ word ∈ rootWords, BeginsWith word owner := by
  rcases ha.text_cases haresolved with ⟨name, rfl, hname⟩ | ⟨owner, name, rfl⟩ | ⟨word, hword, rest, hatext, ha'⟩
  · exact absurd htext.symm (text_ne_builtin hname hb hbresolved hkind.symm)
  · rcases hb.text_cases hbresolved with ⟨_, rfl, hname⟩ | ⟨_, _, rfl⟩ | ⟨word, hword, rest, hbtext, -⟩
    · exact absurd htext (text_ne_builtin hname ha haresolved hkind)
    · exact absurd rfl hkind
    · exact ⟨owner, name, .inl rfl, word, hword,
        beginsWith_of_text_eq (colon_not_mem_of_rootWords hword) (htext.trans hbtext)⟩
  · rcases hb.text_cases hbresolved with ⟨_, rfl, hname⟩ | ⟨owner, name, rfl⟩ | ⟨word', hword', rest', hbtext, hb'⟩
    · exact absurd htext (text_ne_builtin hname ha haresolved hkind)
    · exact ⟨owner, name, .inr rfl, word, hword,
        beginsWith_of_text_eq (colon_not_mem_of_rootWords hword) (htext.symm.trans hatext)⟩
    · exact absurd (kind_eq_of_rooted hword hword' (hatext.symm.trans (htext.trans hbtext)) ha' hb') hkind

end TypeTarget

/-! ## Strict programs -/

namespace Program

variable {t : FileTree} {roots : SourceRoots} {imports : ImportSet} {p : Program}

/-- The files of a strict program are well formed. -/
theorem syntaxErrors_of_strict (h : load t roots imports .strict = .ok p) {x : String × PackageInfo}
    (hx : x ∈ (walkOf t roots imports).loaded) {f : SourceFile} (hf : f ∈ x.2.files) : f.unit.syntaxErrors = [] := by
  refine List.eq_nil_iff_forall_not_mem.2 fun e he => ?_
  have htold := mem_diagnostics_of_mem_syntaxErrors h hx hf he
  exact absurd htold ((load_eq_ok_iff.1 h).2.2 rfl ▸ List.not_mem_nil)

/-- **In a strict program every path stands for something.** -/
theorem isResolved_of_strict (h : load t roots imports .strict = .ok p) {target : TypeTarget}
    (htarget : p.HasTarget target) : target.IsResolved := by
  rintro segments rfl
  obtain ⟨x, hx, f, hf, i, hi, y, hy, path, hpath, htarget⟩ := (hasTarget_iff h).1 htarget
  obtain ⟨huses, htypes⟩ := SourceFile.found_check_eq_nil_iff.1 (found_check_of_strict h hx hf)
  have hwritten : ⟨i.generics, y.type⟩ ∈ f.unit.writtenTypes :=
    List.mem_append_left _ (List.mem_flatMap.2
      ⟨i, List.mem_of_mem_filter hi, Item.mem_writtenTypes_of_mem_structFields hy⟩)
  have hne := ne_nil_of_mem_names hx hf (syntaxErrors_of_strict h hx hf) hwritten hpath
  rcases Scope.problem_or_bound_of_unresolved hne htarget with
    ⟨problem, hproblem, -⟩ | ⟨first, -, hbound⟩
  · exact absurd hproblem (htypes _ hwritten path hpath ▸ List.not_mem_nil)
  · obtain ⟨u, hu, hbinds⟩ := Scope.exists_binds_of_binding? hbound
    obtain ⟨problem, -, hfound⟩ := @Scope.exists_told_of_binds _ ⟨x.1, [], []⟩ first f.path _ u hu hbinds
    exact absurd hfound (huses ▸ List.not_mem_nil)

/-- What a target is declared by is a package of the program. -/
theorem exists_package_of_hasTarget (h : load t roots imports .strict = .ok p) {owner name : String}
    (htarget : p.HasTarget (.declared owner name)) : ∃ a ∈ p.packages, a.importPath = owner := by
  rcases declaresType_or_takesItem h htarget with ⟨a, ha, hpath, -⟩ | htakes
  · exact ⟨a, ha, hpath⟩
  · obtain ⟨a, ha, f, hf, -, -, -, -, -, -, -, -, -, u, hu, -, hitem⟩ := htakes
    rw [packages_of_load h] at ha
    obtain ⟨x, hx, rfl⟩ := List.mem_map.1 ha
    have hresolves := SourceFile.resolves_of_found_check (found_check_of_strict h hx hf) u hu
    obtain ⟨b, hb, hpath, -⟩ := exists_declares h (hresolves.declares hitem)
    exact ⟨b, hb, hpath⟩

/-- **The package behind targets of two kinds that print alike.** -/
theorem exists_package_of_text_eq (h : load t roots imports .strict = .ok p) {a b : TypeTarget}
    (ha : p.HasTarget a) (hb : p.HasTarget b) (haground : a.IsGrounded (surroundingsOf t roots imports) [])
    (hbground : b.IsGrounded (surroundingsOf t roots imports) []) (htext : a.text = b.text)
    (hkind : a.kind ≠ b.kind) :
    ∃ c ∈ p.packages, ∃ word ∈ rootWords, BeginsWith word c.importPath := by
  obtain ⟨owner, name, hor, word, hword, hbegins⟩ := TypeTarget.exists_beginsWith haground hbground
    (isResolved_of_strict h ha) (isResolved_of_strict h hb) htext hkind
  have htarget : p.HasTarget (.declared owner name) := hor.elim (· ▸ ha) (· ▸ hb)
  obtain ⟨c, hc, rfl⟩ := exists_package_of_hasTarget h htarget
  exact ⟨c, hc, word, hword, hbegins⟩

end Program

end ModelPool
