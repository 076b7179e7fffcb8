import ModelPool.Declaration
import ModelPool.Package.Roots

/-!
# Package/UseTarget — what a `use` entry points to

The longest prefix of an entry's path that names a package decides: nothing may be left behind it,
or a single name that the package declares.  Paths into the standard library are left alone, and
relative paths are not supported.

* `isSome_find?_of_packagePrefix?` — the prefix found names a package.
-/

namespace ModelPool

/-- The first segments of paths into the standard library. -/
def externalRoots : List String := ["std", "core", "alloc"]

/-- The first segments of paths relative to the file they stand in. -/
def relativeRoots : List String := ["self", "crate", "super"]

/-- **What a `use` entry points to.** -/
inductive UseTarget where
  | package (path : String)
  | item (package name : String)
  | glob (package : String)
  | external
  | unsupported
  | unresolved
deriving DecidableEq

/-- The package that the target lies in or is. -/
def UseTarget.package? : UseTarget → Option String
  | package path => some path
  | item owner _ | glob owner => some owner
  | external | unsupported | unresolved => none

namespace SourceRoots

/-- The nonempty prefixes of a path, longest first. -/
def prefixes (path : List String) : List (List String) :=
  (List.range path.length).map fun k => path.take (path.length - k)

/-- **The longest prefix of a path that names a package.** -/
def packagePrefix? (t : FileTree) (roots : SourceRoots) (path : List String) :
    Option (List String) :=
  (prefixes path).find? fun segments => (roots.find? t (pathText segments)).isSome

/-- What is found is a prefix that names a package. -/
theorem isSome_find?_of_packagePrefix? {t : FileTree} {roots : SourceRoots}
    {path segments : List String} (h : roots.packagePrefix? t path = some segments) :
    segments <+: path ∧ (roots.find? t (pathText segments)).isSome = true := by
  unfold packagePrefix? at h
  have hfound := List.find?_some h
  refine ⟨?_, hfound⟩
  have hmem := List.mem_of_find?_eq_some h
  obtain ⟨k, _, rfl⟩ := List.mem_map.1 hmem
  exact List.take_prefix _ _

/-- **The target of a `use` entry.** -/
def classify (t : FileTree) (roots : SourceRoots) (u : UseEntry) : UseTarget :=
  match u.path with
  | [] => .unresolved
  | first :: _ =>
    if externalRoots.contains first then .external
    else if relativeRoots.contains first then .unsupported
    else
      match roots.packagePrefix? t u.path with
      | none => .unresolved
      | some segments =>
        match u.glob, u.path.drop segments.length with
        | true, [] => .glob (pathText segments)
        | false, [] => .package (pathText segments)
        | false, [name] => .item (pathText segments) name
        | _, _ => .unresolved

end SourceRoots

end ModelPool
