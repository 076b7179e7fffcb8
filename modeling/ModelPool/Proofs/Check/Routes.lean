import ModelPool.Proofs.Check.Entries
import ModelPool.Proofs.Load.Packages
import ModelPool.Proofs.Source.Words

/-!
# Proofs/Check/Routes — the ways to name a type

    in a file of q          n
    use q::n as m;          m
    use q as m;             m::n         unless m is a root of the standard library
    (m not bound)           q::n         by its first segment m
    use q::*;               n            unless something else of the name comes before

All ways lead to the same target: the type `n` of the package `q`, by the path under which the package has
been loaded.  The only way that an import of a package can fail to bind paths is a name that begins paths into
the standard library, since these are told first.

* `resolveJoined_of_package` — paths that begin with the name of a package.
* `Names` — the ways.
* `resolvePath_of_names` — where they lead.
-/

namespace ModelPool

/-! ## One step of a path -/

namespace Scope

variable {s : Surroundings} {scope : Scope} {generics path : List String} {first name owner : String}

/-- A path of several segments is resolved by its first. -/
theorem resolvePath_of_joined {rest : List String} (hself : first ≠ "Self") (hgeneric : first ∉ generics)
    (hrest : rest ≠ []) :
    scope.resolvePath s generics (first :: rest) = scope.resolveJoined s first rest := by
  have hnot : ¬ (first = "Self" ∨ first ∈ generics) := not_or.2 ⟨hself, hgeneric⟩
  cases rest with
  | nil => exact absurd rfl hrest
  | cons second rest => simp only [resolvePath, if_neg hnot]

/-- A single segment is a name. -/
theorem resolvePath_of_name (hself : name ≠ "Self") (hgeneric : name ∉ generics) :
    scope.resolvePath s generics [name] = scope.resolveName s name := by
  have hnot : ¬ (name = "Self" ∨ name ∈ generics) := not_or.2 ⟨hself, hgeneric⟩
  simp only [resolvePath, if_neg hnot]

/-- A path into the standard library stands for itself, whatever is bound. -/
theorem resolveJoined_of_external {rest : List String} (h : first ∈ externalRoots) :
    scope.resolveJoined s first rest = (.external (first :: rest), []) := by
  simp [resolveJoined, h]

theorem resolvePath_of_external {rest : List String} (hroot : first ∈ externalRoots)
    (hgeneric : first ∉ generics) (hrest : rest ≠ []) :
    scope.resolvePath s generics (first :: rest) = (.external (first :: rest), []) := by
  have hself : first ≠ "Self" := by
    rintro rfl
    exact absurd hroot (by decide)
  rw [resolvePath_of_joined hself hgeneric hrest, resolveJoined_of_external hroot]

/-- A type that a package declares is its target, without a problem. -/
theorem declaredIn_of_declaresType (h : s.declaresType owner name = true) :
    declaredIn s owner name = (.declared owner name, []) := by
  simp [declaredIn, h]

/-- **A path below a loaded package** stands for what the package declares. -/
theorem resolveQualified_of_loaded {segments : List String}
    (h : (s.declarations? (pathText segments)).isSome = true) (name : String) :
    resolveQualified s (segments ++ [name]) = declaredIn s (pathText segments) name := by
  simp [resolveQualified, h]

/-- And a path below none has a problem. -/
theorem resolveQualified_of_not_loaded {segments : List String}
    (h : (s.declarations? (pathText segments)).isSome = false) (name : String) :
    resolveQualified s (segments ++ [name]) =
      (.unresolved (segments ++ [name]), [.unknownPath (pathText (segments ++ [name]))]) := by
  simp [resolveQualified, h]

/-- A path is not bound by its first segment: it is looked up as it is. -/
theorem resolveJoined_of_unbound {rest : List String} (hroot : first ∉ externalRoots)
    (h : scope.binding? first = none) :
    scope.resolveJoined s first rest = resolveQualified s (first :: rest) := by
  simp [resolveJoined, hroot, h]

/-- The text of a package's path with more segments behind it. -/
theorem pathText_splitColons_append (owner : String) (below : List String) :
    pathText (((splitColons owner.toList).map String.ofList) ++ below) = pathText (owner :: below) := by
  have hsplit := pathText_splitColons owner
  cases hparts : (splitColons owner.toList).map String.ofList with
  | nil => exact absurd (List.map_eq_nil_iff.1 hparts) (splitColons_ne_nil _)
  | cons part parts =>
    rw [hparts] at hsplit
    rw [← String.toList_inj, List.cons_append, toList_pathText_cons, toList_pathText_cons, ← hsplit,
      toList_pathText_cons, List.flatMap_append, List.append_assoc]

/-- The name of a package with a segment behind it stands for what the package declares. -/
theorem resolveJoined_of_package_name (hroot : first ∉ externalRoots)
    (h : scope.binding? first = some (.package owner)) :
    scope.resolveJoined s first [name] = declaredIn s owner name := by
  simp [resolveJoined, hroot, h]

/-- **A path that begins with the name of a package** stands for what is declared in the package, or in
the one whose path goes on with the segments in between; or it has a problem. -/
theorem resolveJoined_of_package (hroot : first ∉ externalRoots)
    (h : scope.binding? first = some (.package owner)) (below : List String) (name : String) :
    scope.resolveJoined s first (below ++ [name]) = declaredIn s (pathText (owner :: below)) name ∨
      (scope.resolveJoined s first (below ++ [name])).2 ≠ [] := by
  cases below with
  | nil => exact .inl (resolveJoined_of_package_name hroot h)
  | cons second below =>
    have hqualified : scope.resolveJoined s first (second :: below ++ [name]) =
        resolveQualified s
          (((splitColons owner.toList).map String.ofList ++ second :: below) ++ [name]) := by
      cases below <;> simp [resolveJoined, hroot, h]
    rw [hqualified]
    cases hloaded : (s.declarations? (pathText (owner :: second :: below))).isSome with
    | true =>
      rw [← pathText_splitColons_append] at hloaded
      rw [resolveQualified_of_loaded hloaded, pathText_splitColons_append]
      exact .inl rfl
    | false =>
      rw [← pathText_splitColons_append] at hloaded
      rw [resolveQualified_of_not_loaded hloaded]
      exact .inr (List.cons_ne_nil _ _)

/-! ## Types of globs -/

/-- The package of a glob entry, if it declares a type. -/
def lends? (s : Surroundings) (name : String) (u : UseEntry) : Option String :=
  match s.classify u with
  | .glob owner => if s.declaresType owner name then some owner else none
  | _ => none

theorem lends?_of_glob {u : UseEntry} (h : s.classify u = .glob owner) :
    lends? s name u = if s.declaresType owner name then some owner else none := by
  simp [lends?, h]

theorem lends?_of_ne_glob {u : UseEntry} (h : ∀ owner, s.classify u ≠ .glob owner) :
    lends? s name u = none := by
  unfold lends?
  split
  · next owner howner => exact absurd howner (h owner)
  · rfl

/-- One more glob lends a type that none before it lends. -/
theorem globWith?_withGlob : (scope.withGlob owner).globWith? s name =
    (scope.globWith? s name).or (if s.declaresType owner name then some owner else none) := by
  unfold withGlob
  split
  · next hmem =>
    cases hfound : scope.globWith? s name with
    | some other => rfl
    | none =>
      have hnone := List.find?_eq_none.1 hfound owner hmem
      simp [hnone]
  · simp only [globWith?, List.find?_append, List.find?_singleton]

theorem globWith?_add (u : UseEntry) : (scope.add s u).1.globWith? s name =
    (scope.globWith? s name).or (lends? s name u) := by
  rcases add_cases s scope u with ⟨owner, howner, heq⟩ | ⟨hne, heq, -⟩ | ⟨hne, n, c, -, -, heq⟩
  · rw [heq, globWith?_withGlob, lends?_of_glob howner]
  · rw [heq, lends?_of_ne_glob hne, Option.or_none]
  · rw [heq, lends?_of_ne_glob hne, Option.or_none]
    rfl

/-- **The glob that a name is taken from** is that of the first entry that lends it. -/
theorem globWith?_addAll {file : FilePath} {uses : List UseEntry} :
    (addAll s file scope uses).value.globWith? s name =
      (scope.globWith? s name).or (uses.findSome? (lends? s name)) := by
  induction uses generalizing scope with
  | nil => simp [addAll]
  | cons u r ih =>
    change (addAll s file (scope.add s u).1 r).value.globWith? s name = _
    rw [ih, globWith?_add, Option.or_assoc, List.findSome?_cons]
    cases lends? s name u <;> rfl

end Scope

/-! ## Entries of packages -/

/-- **The path of a package as it is written**: its segments, the first of which begins neither paths into the
standard library nor relative ones. -/
structure IsPackagePath (owner : String) (segments : List String) : Prop where
  text : pathText segments = owner
  absolute : ∃ first, segments.head? = some first ∧ first ∉ externalRoots ∧ first ∉ relativeRoots

theorem IsPackagePath.exists_cons {owner : String} {segments : List String} (h : IsPackagePath owner segments) :
    ∃ first rest, segments = first :: rest ∧ externalRoots.contains first = false ∧
      relativeRoots.contains first = false := by
  obtain ⟨first, hfirst, hexternal, hrelative⟩ := h.absolute
  obtain ⟨rest, hrest⟩ := List.head?_eq_some_iff.1 hfirst
  exact ⟨first, rest, hrest, by simpa using hexternal, by simpa using hrelative⟩

namespace SourceRoots

variable {t : FileTree} {roots : SourceRoots} {owner name : String} {segments : List String} {u : UseEntry}

/-- **The entry of a package** lends its types or binds its name. -/
theorem classify_package (h : IsPackagePath owner segments) (hfound : (roots.find? t owner).isSome = true)
    (hpath : u.path = segments) :
    roots.classify t u = if u.glob then .glob owner else .package owner := by
  obtain ⟨first, rest, rfl, hexternal, hrelative⟩ := h.exists_cons
  have hlongest := roots.packagePrefix?_self (List.cons_ne_nil first rest) (h.text.symm ▸ hfound)
  unfold classify
  rw [hpath]
  simp only [hexternal, hrelative, hlongest, List.drop_length, h.text]
  cases u.glob <;> rfl

/-- **The entry of an item** binds what the package declares. -/
theorem classify_item (h : IsPackagePath owner segments) (hfound : (roots.find? t owner).isSome = true)
    (hpath : u.path = segments ++ [name]) (hglob : u.glob = false)
    (hdir : roots.find? t (pathText (segments ++ [name])) = none) :
    roots.classify t u = .item owner name := by
  obtain ⟨first, rest, rfl, hexternal, hrelative⟩ := h.exists_cons
  have hlongest := (roots.packagePrefix?_concat hdir).trans
    (roots.packagePrefix?_self (List.cons_ne_nil first rest) (h.text.symm ▸ hfound))
  unfold classify
  rw [hpath]
  rw [List.cons_append] at hlongest
  simp only [hexternal, hrelative, hlongest, List.cons_append]
  simp [hglob, h.text]

end SourceRoots

/-! ## Ways to a type -/

/-- **An entry binds a name without a clash**: no entry before it does, nor does the package declare it. -/
structure Scope.BindsFreely (s : Surroundings) (package : String) (f : SourceFile) (u : UseEntry)
    (name : String) : Prop where
  free : s.declares package name = false
  first : ∃ b, Scope.BindsFirst s f.unit.uses u name b

theorem Scope.BindsFreely.binding? {s : Surroundings} {package name : String} {f : SourceFile} {u : UseEntry}
    (h : Scope.BindsFreely s package f u name) : (Scope.ofFile s package f).value.binding? name =
      some (Scope.bindingFor s u (s.classify u)).1 := by
  obtain ⟨b, hb⟩ := h.first
  rw [Scope.binding?_ofFile_first_iff]
  exact ⟨h.free, u, hb.binds.binding ▸ hb⟩

theorem Scope.BindsFreely.glob_eq_false {s : Surroundings} {package name : String} {f : SourceFile}
    {u : UseEntry} (h : Scope.BindsFreely s package f u name) : u.glob = false := by
  obtain ⟨b, hb⟩ := h.first
  have hname := hb.binds.bindingName
  unfold UseEntry.bindingName? at hname
  split at hname
  · simp at hname
  · next hglob => simpa using hglob

/-- **The ways to name a type of a package** in a file. -/
inductive Names (t : FileTree) (roots : SourceRoots) (s : Surroundings) (package : String)
    (f : SourceFile) : List String → String → String → Prop
  /-- By its name, in a file of the package. -/
  | own {name} : Names t roots s package f [name] package name
  /-- By the name that an import of the type binds. -/
  | item {u bound segments owner name} (hu : Scope.BindsFreely s package f u bound)
      (howner : IsPackagePath owner segments) (hpath : u.path = segments ++ [name])
      (hdir : roots.find? t (pathText (segments ++ [name])) = none) :
      Names t roots s package f [bound] owner name
  /-- Behind the name that an import of the package binds. -/
  | package {u bound segments owner name} (hu : Scope.BindsFreely s package f u bound)
      (howner : IsPackagePath owner segments) (hpath : u.path = segments) (hroot : bound ∉ externalRoots) :
      Names t roots s package f [bound, name] owner name
  /-- Behind the path of the package, where its first segment is not bound. -/
  | full {segments owner name} (howner : IsPackagePath owner segments)
      (hfree : ∀ first, segments.head? = some first →
        (Scope.ofFile s package f).value.binding? first = none) :
      Names t roots s package f (segments ++ [name]) owner name
  /-- By its name, where a glob of the package lends it and nothing else of the name comes before. -/
  | glob {u before after segments owner name} (huses : f.unit.uses = before ++ u :: after)
      (howner : IsPackagePath owner segments) (hpath : u.path = segments) (hglob : u.glob = true)
      (hown : s.declaresType package name = false)
      (hfree : (Scope.ofFile s package f).value.binding? name = none) (hbuiltin : isBuiltin name = false)
      (hbefore : ∀ v ∈ before, ∀ other, s.classify v = .glob other → s.declaresType other name = false) :
      Names t roots s package f [name] owner name

/-- **All ways lead to the type**, without a problem. -/
theorem resolvePath_of_names {t : FileTree} {roots : SourceRoots} {s : Surroundings} {package : String}
    {f : SourceFile} {generics path : List String} {owner name : String}
    (hs : s.classify = roots.classify t) (hfound : (roots.find? t owner).isSome = true)
    (hdeclares : s.declaresType owner name = true)
    (hpath : ∀ first, path.head? = some first → first ≠ "Self" ∧ first ∉ generics)
    (h : Names t roots s package f path owner name) :
    (Scope.ofFile s package f).value.resolvePath s generics path = (.declared owner name, []) := by
  have hpackage : (Scope.ofFile s package f).value.package = package := Scope.package_addAll _ _ _ _
  cases h with
  | own =>
    obtain ⟨hself, hgeneric⟩ := hpath name rfl
    rw [Scope.resolvePath_of_name hself hgeneric, Scope.resolveName_own (hpackage.symm ▸ hdeclares),
      hpackage]
  | @item u bound segments _ _ hu howner hentry hdir =>
    obtain ⟨hself, hgeneric⟩ := hpath bound rfl
    have hbound := hu.binding?
    rw [hs, SourceRoots.classify_item howner hfound hentry hu.glob_eq_false hdir] at hbound
    rw [Scope.resolvePath_of_name hself hgeneric, Scope.resolveName_of_item hbound]
  | @package u bound segments _ _ hu howner hentry hroot =>
    obtain ⟨hself, hgeneric⟩ := hpath bound rfl
    have hbound := hu.binding?
    rw [hs, SourceRoots.classify_package howner hfound hentry, hu.glob_eq_false] at hbound
    rw [Scope.resolvePath_of_joined hself hgeneric (List.cons_ne_nil _ _),
      Scope.resolveJoined_of_package_name hroot hbound, Scope.declaredIn_of_declaresType hdeclares]
  | @full segments _ _ howner hfree =>
    obtain ⟨first, hfirst, hexternal, -⟩ := howner.absolute
    obtain ⟨rest, rfl⟩ := List.head?_eq_some_iff.1 hfirst
    obtain ⟨hself, hgeneric⟩ := hpath first rfl
    have hloaded := Scope.isSome_declarations?_of_declaresType (howner.text.symm ▸ hdeclares)
    rw [List.cons_append, Scope.resolvePath_of_joined hself hgeneric (by simp),
      Scope.resolveJoined_of_unbound hexternal (hfree first rfl), ← List.cons_append,
      Scope.resolveQualified_of_loaded hloaded, howner.text,
      Scope.declaredIn_of_declaresType hdeclares]
  | @glob u before after segments _ _ huses howner hentry hglob hown hfree hbuiltin hbefore =>
    obtain ⟨hself, hgeneric⟩ := hpath name rfl
    have hlends : Scope.lends? s name u = some owner := by
      have hclassify := SourceRoots.classify_package howner hfound hentry
      rw [hglob, if_pos rfl, ← hs] at hclassify
      rw [Scope.lends?_of_glob hclassify, if_pos hdeclares]
    have hnone : before.findSome? (Scope.lends? s name) = none := by
      rw [List.findSome?_eq_none_iff]
      intro v hv
      unfold Scope.lends?
      split
      · next other hother => simp [hbefore v hv other hother]
      · rfl
    have hfirst : (Scope.ofFile s package f).value.globWith? s name = some owner := by
      rw [Scope.ofFile, Scope.globWith?_addAll, huses, List.findSome?_append, hnone,
        List.findSome?_cons, hlends]
      rfl
    rw [Scope.resolvePath_of_name hself hgeneric]
    simp [Scope.resolveName, hpackage, hown, hfree, hbuiltin, hfirst]

end ModelPool
