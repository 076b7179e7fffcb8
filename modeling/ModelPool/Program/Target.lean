import ModelPool.Type

/-!
# Program/Target — what the paths of types stand for

A resolved type is a type whose names are targets.  A target is printed in full, so two types with the
same text are written alike wherever they stand.
-/

namespace ModelPool

/-- **What a path in a signature stands for.** -/
inductive TypeTarget where
  | builtin (name : String)
  | generic (path : String)
  | declared (package name : String)
  | external (path : List String)
  | unresolved (path : List String)
deriving DecidableEq

/-- The full name of a target. -/
def TypeTarget.text : TypeTarget → String
  | builtin name => name
  | generic path => path
  | declared package name => package ++ "::" ++ name
  | external path => pathText path
  | unresolved path => pathText path

/-- **A type with every path resolved.** -/
abbrev ResolvedType := Ty TypeTarget

namespace ResolvedType

/-- The text of a resolved type. -/
def text (t : ResolvedType) : String := t.render TypeTarget.text

/-- The targets of a type, outermost first. -/
def targets (t : ResolvedType) : List TypeTarget := t.names

end ResolvedType

end ModelPool
