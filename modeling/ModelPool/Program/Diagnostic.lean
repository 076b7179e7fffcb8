import ModelPool.Package.Reading

/-!
# Program/Diagnostic — the problems of a program, and how they are told

A problem is a cause; a diagnostic is its kind and its text at a place.  A load may go on with
diagnostics or be refused because of them: the refusal lists the first few.
-/

namespace ModelPool

/-! ## Diagnostics -/

/-- The kinds of problems. -/
inductive DiagnosticKind where
  | syntaxError
  | unreadable
  | missingPackage
  | packageName
  | unresolvedImport
  | unsupportedImport
  | missingItem
  | redeclared
  | undefinedType
deriving DecidableEq

/-- **A problem at its place**: a package, and perhaps a file and a line of it; line 0 is none. -/
structure Diagnostic where
  kind : DiagnosticKind
  package : String
  file : Option FilePath
  line : Nat
  message : String
deriving DecidableEq

/-- A diagnostic as text: the place as far as it is known, and the message. -/
def Diagnostic.text (d : Diagnostic) : String :=
  match d.file with
  | none => d.package ++ ": " ++ d.message
  | some file =>
    if d.line = 0 then file.text ++ ": " ++ d.message
    else file.text ++ ":" ++ toString d.line ++ ": " ++ d.message

/-! ## Causes -/

/-- A name in the marks that set it off in a message. -/
def marked (s : String) : String := "`" ++ s ++ "`"

/-- **What is wrong with a program.** -/
inductive Problem where
  | malformed (error : SyntaxError)
  | unreadable (error : PackageError)
  | missingPackage (path : String)
  | conflictingNames (dir : FilePath) (first second : String)
  | unresolvedImport (path : String)
  | relativeImport (path : String)
  | itemNotDeclared (name package : String)
  | importedTwice (name : String)
  | declaredTwice (name : String)
  | typeNotDeclared (name package : String)
  | itemAsPackage (path name package : String)
  | packageAsType (name package : String)
  | unknownPath (path : String)
  | undefinedType (name : String)

namespace Problem

/-- The kind of a problem. -/
def kind : Problem → DiagnosticKind
  | malformed _ => .syntaxError
  | unreadable _ => .unreadable
  | missingPackage _ => .missingPackage
  | conflictingNames _ _ _ => .packageName
  | unresolvedImport _ => .unresolvedImport
  | relativeImport _ => .unsupportedImport
  | itemNotDeclared _ _ | typeNotDeclared _ _ => .missingItem
  | importedTwice _ | declaredTwice _ => .redeclared
  | itemAsPackage _ _ _ | packageAsType _ _ | unknownPath _ | undefinedType _ => .undefinedType

/-- The text of a problem. -/
def message : Problem → String
  | malformed e => "syntax error at column " ++ toString e.column ++ ": " ++ e.message
  | unreadable e => e.message
  | missingPackage path => "cannot find package " ++ marked path ++ " in any source root"
  | conflictingNames dir first second => conflictMessage dir first second
  | unresolvedImport path => "cannot resolve import " ++ marked path
  | relativeImport path =>
    "relative import " ++ marked path ++ " is not supported; use a path from a source root"
  | itemNotDeclared name package =>
    marked name ++ " is not declared in package " ++ marked package
  | importedTwice name => marked name ++ " is imported more than once"
  | declaredTwice name => marked name ++ " redeclared in this package"
  | typeNotDeclared name package =>
    "type " ++ marked name ++ " is not declared in package " ++ marked package
  | itemAsPackage path name package =>
    "cannot resolve type path " ++ marked path ++ ": " ++ marked name ++ " is an item of "
      ++ marked package ++ ", not a package"
  | packageAsType name package =>
    marked name ++ " names package " ++ marked package ++ ", not a type"
  | unknownPath path => "cannot resolve type path " ++ marked path
  | undefinedType name => "undefined type " ++ marked name

/-- The problem of a whole package. -/
def inPackage (package : String) (p : Problem) : Diagnostic :=
  ⟨p.kind, package, none, 0, p.message⟩

/-- The problem at a line of a file. -/
def inFile (package : String) (file : FilePath) (line : Nat) (p : Problem) : Diagnostic :=
  ⟨p.kind, package, some file, line, p.message⟩

end Problem

/-! ## Refusals -/

/-- **Why nothing is loaded.** -/
inductive LoadError where
  | noPackages
  | strict (diagnostics : List Diagnostic)

/-- The most diagnostics that a refusal repeats. -/
def shownDiagnostics : Nat := 10

/-- The text of a refusal: how many problems there are, and the first of them. -/
def strictMessage (ds : List Diagnostic) : String :=
  let count := if ds.length = 1 then "1 error" else toString ds.length ++ " errors"
  let shown := (ds.take shownDiagnostics).map fun d => "\n  " ++ d.text
  let more := ds.length - shownDiagnostics
  count ++ String.join shown ++
    if more = 0 then "" else "\n  ... and " ++ toString more ++ " more"

/-- The text of a load error. -/
def LoadError.message : LoadError → String
  | noPackages => "no packages to load"
  | strict ds => strictMessage ds

end ModelPool
