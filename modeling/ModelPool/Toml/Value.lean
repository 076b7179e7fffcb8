/-!
# Toml/Value — values and tables of TOML

A table remembers how it came about, for that decides what may still be put into it: a table between
braces is complete, a table with a header of its own is only filled below that header, and one that
stands for a part of a dotted key is only filled by dotted keys.
-/

namespace ModelPool

/-- **How a table came about.** -/
inductive TableOrigin where
  | header
  | implied
  | dotted
  | closed
deriving DecidableEq

/-- **A value of TOML.**  Numbers and points in time are kept as they are written. -/
inductive Toml where
  | text (s : String)
  | number (written : List Char)
  | moment (written : List Char)
  | boolean (b : Bool)
  | array (elements : List Toml)
  | table (origin : TableOrigin) (entries : List (String × Toml))
  | tables (elements : List (List (String × Toml)))

namespace Toml

/-- The entries of a table. -/
abbrev Entries := List (String × Toml)

namespace Entries

/-! ## Single entries -/

/-- The entries with a new value for a name. -/
def replace (name : String) (v : Toml) (es : Entries) : Entries :=
  es.map fun e => if e.1 = name then (name, v) else e

/-- The entries with a value for a name, which comes last if it is new. -/
def put (name : String) (v : Toml) (es : Entries) : Entries :=
  if (es.lookup name).isSome then es.replace name v else es ++ [(name, v)]

/-- One more entry, whose name has to be new. -/
def insert? (name : String) (v : Toml) (es : Entries) : Option Entries :=
  if (es.lookup name).isSome then none else some (es ++ [(name, v)])

/-! ## Entries of inner tables -/

/-- **Changes the table that a path leads to.**  Missing tables are made on the way, in the manner
given.  Dotted keys do not lead into tables with headers, and nothing leads into a complete value;
from an array of tables the path goes on into the last one. -/
def update? (missing : TableOrigin) (change : TableOrigin → Entries → Option Entries) :
    List String → TableOrigin → Entries → Option Entries
  | [], origin, es => change origin es
  | name :: path, _, es =>
    match es.lookup name with
    | none =>
      (update? missing change path missing []).map fun inner => es.put name (.table missing inner)
    | some (.table origin inner) =>
      if origin = .closed ∨ (missing = .dotted ∧ origin = .header) then none
      else (update? missing change path origin inner).map fun new => es.put name (.table origin new)
    | some (.tables elements) =>
      match elements.getLast? with
      | none => none
      | some last =>
        (update? missing change path .header last).map fun new =>
          es.put name (.tables (elements.dropLast ++ [new]))
    | some _ => none

/-- **One more entry under a dotted key.** -/
def insertDotted? (path : List String) (name : String) (v : Toml) (es : Entries) : Option Entries :=
  update? .dotted
    (fun origin inner =>
      if path ≠ [] ∧ origin ≠ .dotted then none else inner.insert? name v) path .header es

/-! ## Headers -/

/-- The table that a header names: a new one, or one that was only implied. -/
def openTable? (name : String) (es : Entries) : Option Entries :=
  match es.lookup name with
  | none => some (es.put name (.table .header []))
  | some (.table .implied inner) => some (es.put name (.table .header inner))
  | some _ => none

/-- One more table in the array that a header names. -/
def openElement? (name : String) (es : Entries) : Option Entries :=
  match es.lookup name with
  | none => some (es.put name (.tables [[]]))
  | some (.tables elements) => some (es.put name (.tables (elements ++ [[]])))
  | some _ => none

end Entries

/-! ## Documents -/

/-- A key: the names before the last one, and the last one. -/
structure Key where
  path : List String
  name : String

/-- **A line of a document** — a header, a header of an array's element, or an entry. -/
inductive Line where
  | header (key : Key)
  | element (key : Key)
  | entry (key : Key) (value : Toml)

/-- A document so far: its entries, and the path of the last header. -/
structure Draft where
  entries : Entries
  current : List String

namespace Draft

/-- The document with one more line. -/
def add? (d : Draft) : Line → Option Draft
  | .header key => do
    let es ← Entries.update? .implied (fun _ => Entries.openTable? key.name) key.path .header d.entries
    return ⟨es, key.path ++ [key.name]⟩
  | .element key => do
    let es ←
      Entries.update? .implied (fun _ => Entries.openElement? key.name) key.path .header d.entries
    return ⟨es, key.path ++ [key.name]⟩
  | .entry key v => do
    let es ← Entries.update? .implied (fun _ => Entries.insertDotted? key.path key.name v) d.current
      .header d.entries
    return { d with entries := es }

end Draft

/-- **The entries of a document with given lines.** -/
def ofLines? (lines : List Line) : Option Entries :=
  (lines.foldlM Draft.add? ⟨[], []⟩).map Draft.entries

end Toml

end ModelPool
