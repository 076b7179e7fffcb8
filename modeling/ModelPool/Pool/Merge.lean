import ModelPool.Program.Basic

/-!
# Pool/Merge — the fragments of a model put together

The fragments of all packages but the pool are taken in load order.  Fragments with one name are one
model: its fields are those of its fragments, the first declaration of a name counting, and its
documentation is that of its fragments with an empty line in between.
-/

namespace ModelPool

/-! ## Merged models -/

/-- A field of a merged model, with the package that declares it first. -/
structure MergedField where
  name : String
  type : ResolvedType
  docs : List String
  package : String
deriving DecidableEq

/-- **A model with its fragments put together.** -/
structure MergedModel where
  name : String
  docs : List String
  packages : List String
  fields : List MergedField
deriving DecidableEq

/-- **Why no pool is made of a program.** -/
inductive SynthesisError where
  | conflictingField (model field first firstPackage second secondPackage : String)
  | genericModel (model package : String)
  | unsupportedShape (model package : String)
  | unknownModel (model field name : String)
  | unresolvedType (model field type : String)
  | fileNameCollision (file first second : String)
  | unwritable (file : FilePath) (cause : IoError)
deriving DecidableEq

/-- The text of an error. -/
def SynthesisError.message : SynthesisError → String
  | conflictingField model field first firstPackage second secondPackage =>
    "model " ++ model ++ ": field " ++ marked field ++ " is " ++ marked first ++ " in "
      ++ firstPackage ++ " but " ++ marked second ++ " in " ++ secondPackage
  | genericModel model package =>
    "model " ++ model ++ " in " ++ package ++ " is generic, which the pool cannot express"
  | unsupportedShape model package =>
    "model " ++ model ++ " in " ++ package ++ " must declare named fields"
  | unknownModel model field name =>
    "model " ++ model ++ ": field " ++ marked field ++ " refers to unknown pool model "
      ++ marked name
  | unresolvedType model field type =>
    "model " ++ model ++ ": field " ++ marked field ++ " has unresolved type " ++ marked type
  | fileNameCollision file first second =>
    "models " ++ first ++ " and " ++ second ++ " both map to " ++ file
  | unwritable file cause => "failed to write " ++ file.text ++ ": " ++ cause.message

namespace MergedModel

/-- A model without fragments. -/
def empty (name : String) : MergedModel := ⟨name, [], [], []⟩

/-- The documentation of two parts, with an empty line between them where both have some. -/
def joinDocs (first second : List String) : List String :=
  if second.isEmpty then first
  else if first.isEmpty then second
  else first ++ "" :: second

/-- The model's field with a name. -/
def field? (m : MergedModel) (name : String) : Option MergedField :=
  m.fields.find? (·.name == name)

/-- **The model with one more declaration of a field**: a repeated one has to agree in its type. -/
def addField (package : String) (m : MergedModel) (f : ResolvedField) :
    Except SynthesisError MergedModel :=
  match m.field? f.name with
  | some known =>
    if known.type = f.type then .ok m
    else .error (.conflictingField m.name f.name known.type.text known.package f.type.text package)
  | none => .ok { m with fields := m.fields ++ [⟨f.name, f.type, f.docs, package⟩] }

/-- The model with one more contributing package. -/
def addPackage (package : String) (m : MergedModel) : MergedModel :=
  if m.packages.contains package then m else { m with packages := m.packages ++ [package] }

/-- **The model with one more fragment.** -/
def add (package : String) (f : ModelFragment) (m : MergedModel) :
    Except SynthesisError MergedModel :=
  f.fields.foldlM (addField package)
    (addPackage package { m with docs := joinDocs m.docs f.docs })

end MergedModel

/-! ## Merging -/

/-- A fragment that can be put together: without type parameters, and with named fields. -/
def ModelFragment.check (package : String) (f : ModelFragment) : Except SynthesisError Unit :=
  if !f.generics.isEmpty then .error (.genericModel f.name package)
  else if f.shape ≠ .named then .error (.unsupportedShape f.name package)
  else .ok ()

/-- **Models with one more fragment**, which goes to the model of its name or begins a new one. -/
def addFragment (package : String) (f : ModelFragment) :
    List MergedModel → Except SynthesisError (List MergedModel)
  | [] => do return [← (MergedModel.empty f.name).add package f]
  | m :: r =>
    if m.name = f.name then do return (← m.add package f) :: r
    else do return m :: (← addFragment package f r)

/-- Models with one more fragment, which has to be one that can be put together. -/
def mergeFragment (models : List MergedModel) (fragment : String × ModelFragment) :
    Except SynthesisError (List MergedModel) := do
  fragment.2.check fragment.1
  addFragment fragment.1 fragment.2 models

/-- The models of fragments. -/
def mergeFragments (fragments : List (String × ModelFragment)) :
    Except SynthesisError (List MergedModel) :=
  fragments.foldlM mergeFragment []

/-- The fragments that make up the pool: those of every package but the pool itself. -/
def Program.contributions (p : Program) (pool : String) : List (String × ModelFragment) :=
  (p.fragments.map fun (package, f) => (package.importPath, f)).filter (·.1 != pool)

/-- **The models of a program.** -/
def Program.merge (p : Program) (pool : String) : Except SynthesisError (List MergedModel) :=
  mergeFragments (p.contributions pool)

end ModelPool
