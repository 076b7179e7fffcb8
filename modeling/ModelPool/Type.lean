import ModelPool.Segments

/-!
# Type — type expressions over any kind of name

A type expression has one shape, whether its paths are still texts or already targets.  `Ty ρ` is that
shape with names in `ρ` at its paths: `TypeExpr` has the segments as written, and the checker turns it
into one over targets by `Ty.traverse`, which touches nothing but the names.

* `Ty.render_path` — a path prints its name and then its arguments.
* `Ty.names` — the names of a type, outermost first.
-/

namespace ModelPool

/-- **A type expression with names in `ρ`.**  Shapes that no rule looks into, such as function
pointers, are kept as text. -/
inductive Ty (ρ : Type) where
  | path (name : ρ) (args : List (Ty ρ))
  | reference (lifetime : Option String) (mutable : Bool) (inner : Ty ρ)
  | slice (element : Ty ρ)
  | array (element : Ty ρ) (length : String)
  | tuple (elements : List (Ty ρ))
  | traitObject (keyword : String) (bound : Ty ρ)
  | verbatim (text : String)

namespace Ty

variable {ρ σ : Type}

/-! ## Equality -/

mutual

/-- Two types are the same, decided along their structure. -/
def same [DecidableEq ρ] : Ty ρ → Ty ρ → Bool
  | path n as, path m bs => decide (n = m) && sameAll as bs
  | reference l mu t, reference l' mu' t' => decide (l = l') && decide (mu = mu') && same t t'
  | slice t, slice t' => same t t'
  | array t n, array t' n' => same t t' && decide (n = n')
  | tuple ts, tuple ts' => sameAll ts ts'
  | traitObject k t, traitObject k' t' => decide (k = k') && same t t'
  | verbatim s, verbatim s' => decide (s = s')
  | _, _ => false

/-- Two lists of types are the same. -/
def sameAll [DecidableEq ρ] : List (Ty ρ) → List (Ty ρ) → Bool
  | [], [] => true
  | t :: r, t' :: r' => same t t' && sameAll r r'
  | _, _ => false

end

mutual

/-- **`same` decides equality.** -/
theorem same_iff [DecidableEq ρ] : ∀ a b : Ty ρ, same a b = true ↔ a = b
  | path n as, b => by cases b <;> simp [same, sameAll_iff as]
  | reference l mu t, b => by cases b <;> simp [same, same_iff t, and_assoc]
  | slice t, b => by cases b <;> simp [same, same_iff t]
  | array t n, b => by cases b <;> simp [same, same_iff t]
  | tuple ts, b => by cases b <;> simp [same, sameAll_iff ts]
  | traitObject k t, b => by cases b <;> simp [same, same_iff t]
  | verbatim s, b => by cases b <;> simp [same]

/-- And so does `sameAll` for lists. -/
theorem sameAll_iff [DecidableEq ρ] : ∀ as bs : List (Ty ρ), sameAll as bs = true ↔ as = bs
  | [], bs => by cases bs <;> simp [sameAll]
  | t :: r, bs => by cases bs <;> simp [sameAll, same_iff t, sameAll_iff r]

end

instance [DecidableEq ρ] : DecidableEq (Ty ρ) := fun a b => decidable_of_iff _ (same_iff a b)

/-! ## Printing -/

/-- The sign and modifiers before a referenced type. -/
def referenceMark (lifetime : Option String) (mutable : Bool) : String :=
  "&" ++ (match lifetime with | some l => "'" ++ l ++ " " | none => "")
    ++ (if mutable then "mut " else "")

/-- Arguments in angle brackets; no brackets without arguments. -/
def bracketed (args : List String) : String :=
  if args.isEmpty then "" else "<" ++ ", ".intercalate args ++ ">"

/-- Elements in parentheses; a single one keeps the comma that tells it from a group. -/
def parenthesized (elements : List String) : String :=
  "(" ++ ", ".intercalate elements ++ (if elements.length = 1 then "," else "") ++ ")"

mutual

/-- **The text of a type**, given the text of its names. -/
def render (nameText : ρ → String) : Ty ρ → String
  | path name args => nameText name ++ bracketed (renderAll nameText args)
  | reference lifetime mutable inner => referenceMark lifetime mutable ++ render nameText inner
  | slice element => "[" ++ render nameText element ++ "]"
  | array element length => "[" ++ render nameText element ++ "; " ++ length ++ "]"
  | tuple elements => parenthesized (renderAll nameText elements)
  | traitObject keyword bound => keyword ++ " " ++ render nameText bound
  | verbatim text => text

/-- The texts of several types. -/
def renderAll (nameText : ρ → String) : List (Ty ρ) → List String
  | [] => []
  | t :: r => render nameText t :: renderAll nameText r

end

/-- **Several types print one by one.** -/
theorem renderAll_eq_map (nameText : ρ → String) (ts : List (Ty ρ)) :
    renderAll nameText ts = ts.map (render nameText) := by
  induction ts with
  | nil => simp [renderAll]
  | cons t r ih => simp [renderAll, ih]

/-- **A path prints its name and then its arguments.** -/
theorem render_path (nameText : ρ → String) (name : ρ) (args : List (Ty ρ)) :
    render nameText (path name args) = nameText name ++ bracketed (args.map (render nameText)) := by
  simp [render, renderAll_eq_map]

/-! ## The paths of a type -/

mutual

/-- **The paths of a type with their arguments**, outermost first. -/
def paths : Ty ρ → List (ρ × List (Ty ρ))
  | path name args => (name, args) :: pathsAll args
  | reference _ _ inner => paths inner
  | slice element => paths element
  | array element _ => paths element
  | tuple elements => pathsAll elements
  | traitObject _ bound => paths bound
  | verbatim _ => []

/-- The paths of several types. -/
def pathsAll : List (Ty ρ) → List (ρ × List (Ty ρ))
  | [] => []
  | t :: r => paths t ++ pathsAll r

end

/-- **The names of a type**, outermost first. -/
def names (t : Ty ρ) : List ρ := t.paths.map Prod.fst

/-! ## Visiting the names -/

mutual

/-- **Replaces every name by the outcome of a step**, outermost first; all other parts stay. -/
def traverse {m : Type → Type} [Monad m] (f : ρ → m σ) : Ty ρ → m (Ty σ)
  | path name args => do
    let target ← f name
    let args ← traverseAll f args
    pure (path target args)
  | reference lifetime mutable inner => do
    pure (reference lifetime mutable (← traverse f inner))
  | slice element => do pure (slice (← traverse f element))
  | array element length => do pure (array (← traverse f element) length)
  | tuple elements => do pure (tuple (← traverseAll f elements))
  | traitObject keyword bound => do pure (traitObject keyword (← traverse f bound))
  | verbatim text => pure (verbatim text)

/-- The same for several types, from left to right. -/
def traverseAll {m : Type → Type} [Monad m] (f : ρ → m σ) : List (Ty ρ) → m (List (Ty σ))
  | [] => pure []
  | t :: r => do
    let t ← traverse f t
    let r ← traverseAll f r
    pure (t :: r)

end

end Ty

/-! ## Types as written -/

/-- **A type as written** — its names are the segments of paths. -/
abbrev TypeExpr := Ty (List String)

/-- The canonical text of a type as written. -/
def TypeExpr.text (t : TypeExpr) : String := t.render pathText

end ModelPool
