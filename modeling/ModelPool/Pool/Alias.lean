import ModelPool.Pool.Merge

/-!
# Pool/Alias — short names for the packages that a pool imports

Each package is imported under the last segment of its path, or under that segment with a number
where the name is taken: by a model, by a word that means something already, or by a package that
comes before it in alphabetical order.
-/

namespace ModelPool

/-- Words that no package may be imported as. -/
def reservedAliases : List String := ["std", "core", "alloc", "self", "crate", "super", "Self"]

/-- The names that stand for a package, in the order of their choice. -/
def numbered (base : String) (k : Nat) : String :=
  if k = 0 then base else base ++ "_" ++ toString (k + 1)

/-- **The first name that is not taken** of a base and the base with numbers from 2 on.  Of one more
candidates than there are taken names one is free. -/
def freshName (taken : List String) (base : String) : String :=
  (((List.range (taken.length + 1)).map (numbered base)).find? (· ∉ taken)).getD base

/-- The packages besides the pool that a target lies in. -/
def TypeTarget.outsidePackage? (pool : String) : TypeTarget → Option String
  | .declared package _ => if package = pool then none else some package
  | _ => none

/-- The packages besides the pool that types refer to, in alphabetical order and each once. -/
def outsidePackages (pool : String) (types : List ResolvedType) : List String :=
  ((types.flatMap ResolvedType.targets).filterMap (·.outsidePackage? pool)).eraseDups.mergeSort
    fun a b => decide (a ≤ b)

/-- Names for packages in order, each free of those taken before. -/
def assignAliases : List String → List String → List (String × String)
  | _, [] => []
  | taken, package :: r =>
    let bound := freshName taken (lastSegment package)
    (package, bound) :: assignAliases (bound :: taken) r

/-- **The names under which the packages of models are imported.** -/
def aliasesFor (pool : String) (models : List MergedModel) : List (String × String) :=
  assignAliases (models.map MergedModel.name ++ reservedAliases)
    (outsidePackages pool (models.flatMap fun m => m.fields.map MergedField.type))

end ModelPool
