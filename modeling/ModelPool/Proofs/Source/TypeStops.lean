import ModelPool.Proofs.Source.Tiling

/-!
# Proofs/Source/TypeStops — a type ends with its last token

The readers for types look ahead at many places, and what they only look at is left for others: each of them stops
right behind the last token that it has taken.  So a comment behind a type is no part of it.

* `typesStop` — the law for every reader that a type can end with.
-/

namespace ModelPool.Source.Reader

open Cursor

variable {α β : Type} {m m' : Reader α} {c : Cursor} {n : Nat}

instance : Stops (expect ">") := stops_expect (by decide)

instance : Stops (expect ")") := stops_expect (by decide)

instance (kind : TokenKind) : Stops (take kind) :=
  stops_of_yields fun _ => yields_take fun _ ht _ => Cursor.stopsAt_forward ht

instance : Stops word := by unfold word; infer_instance

instance : Follows (optional "+") := follows_optional (by decide)

instance : Follows (optional "->") := follows_optional (by decide)

instance : Follows token? := by unfold token?; infer_instance

instance : Follows text := by unfold text; infer_instance

instance : Follows textPair := by unfold textPair; infer_instance

instance (start : Cursor) : Follows (trimmedSince start) := by unfold trimmedSince; infer_instance

instance (start : Cursor) : Follows (verbatimSince start) := by unfold verbatimSince; infer_instance

/-- A list of at least one entry ends in its closing sign. -/
theorem stops_list1 {sign : String} (hs : sign ≠ "") (fuel : Nat) (m : Reader α) [Moves m] :
    Stops (list1 sign fuel m) := by
  have hexpect : Stops (expect sign) := stops_expect hs
  unfold list1
  refine stops_behind fun found => ?_
  split
  · infer_instance
  · infer_instance

instance (fuel : Nat) (m : Reader α) [Moves m] : Stops (list1 ">" fuel m) := stops_list1 (by decide) fuel m

instance (fuel : Nat) (m : Reader α) [Moves m] : Stops (list1 ")" fuel m) := stops_list1 (by decide) fuel m

instance (n : Nat) : Stops (parameters n) := by
  cases n with
  | zero => exact stops_failure
  | succ n => unfold parameters; infer_instance

instance (n : Nat) : Stops (typeArguments n) := by
  cases n with
  | zero => exact stops_failure
  | succ n => unfold typeArguments; infer_instance

instance (n : Nat) : Stops (typeParameters n) := by
  cases n with
  | zero => exact stops_failure
  | succ n => unfold typeParameters; infer_instance

/-- **The readers that a type can end with stop**, with so much fuel; those that may read nothing follow a reader
that stops. -/
class TypesStop (n : Nat) : Prop where
  type : Stops (type n)
  bareType : Stops (bareType n)
  bound : Stops (bound n)
  furtherBounds : Follows (furtherBounds n)
  objectBound : ∀ isDyn, Stops (objectBound n isDyn)
  functionPointer : Stops (functionPointer n)
  path : Stops (path n)
  pathFrom : ∀ start form soFar, Follows (pathFrom n start form soFar)
  pathOpened : ∀ start soFar, Stops (Reader.pathFrom n start .opened soFar)

attribute [instance] TypesStop.type TypesStop.bareType TypesStop.bound TypesStop.furtherBounds
  TypesStop.objectBound TypesStop.functionPointer TypesStop.path TypesStop.pathFrom TypesStop.pathOpened

/-! ### What is ahead decides -/

theorem Stops.yields (hm : Stops m) : Yields m c fun _ c' => c.StopsAt c' := fun _ _ h => hm.stopsAt h

/-- A text that is known to be ahead may be told apart. -/
theorem stops_text {f : String → Reader β}
    (h : ∀ s c, textOf c.ahead? = s → Yields (f s) c fun _ c' => c.StopsAt c') : Stops (text >>= f) :=
  stops_of_yields fun c => yields_bind (yields_text (h _ c rfl))

/-- A sign that is ahead is passed over. -/
theorem yields_skip_stopsAt {s : String} (hs : s ≠ "") {f : Unit → Reader β} (hf : Follows (f ()))
    (hahead : textOf c.ahead? = s) : Yields (skip >>= f) c fun _ c' => c.StopsAt c' :=
  (exists_ahead?_of_textOf hs hahead).elim fun _ ht =>
    yields_bind (yields_skip fun _ _ hrun => hf.stopsAt (Cursor.stopsAt_forward ht) hrun)

/-- Behind a token of a kind that may be ahead it is enough to stay. -/
theorem stops_take? {kind : TokenKind} {f : Option String → Reader β} (hsome : ∀ s, Follows (f (some s)))
    (hnone : Stops (f none)) : Stops (take? kind >>= f) :=
  stops_of_yields fun _ => yields_bind (yields_take?
    (fun t ht _ _ _ hrun => (hsome t.text).stopsAt (Cursor.stopsAt_forward ht) hrun)
    fun _ _ _ hrun => hnone.stopsAt hrun)

theorem follows_of_stops (hm : Stops m) : Follows m := inferInstance

theorem follows_bind {f : α → Reader β} (hm : Follows m) (hf : ∀ a, Follows (f a)) : Follows (m >>= f) :=
  inferInstance

theorem follows_if {p : Prop} [Decidable p] (hm : Follows m) (hn : Follows m') :
    Follows (if p then m else m') := inferInstance

section Readers

variable [smaller : TypesStop n]

theorem stops_type : Stops (type (n + 1)) := by
  unfold type
  refine stops_behind fun start => stops_take? (fun s => ?_) ?_
  · simp only [Option.isSome_some, if_true]
    infer_instance
  · rw [if_neg (by decide)]
    infer_instance

theorem stops_bareType : Stops (bareType (n + 1)) := by
  unfold bareType
  refine stops_behind fun start => stops_behind fun atPointer => stops_if inferInstance ?_
  refine stops_text fun s c hc => ?_
  split
  case h_3 =>
    refine Stops.yields (stops_behind fun _ => stops_optional (by decide) ?_ ?_)
    · rw [if_pos rfl]
      infer_instance
    · rw [if_neg (by decide)]
      infer_instance
  case h_4 =>
    refine Stops.yields (stops_behind fun _ => stops_behind fun _ => stops_behind fun _ => stops_if ?_ ?_)
    · exact stops_behind fun _ => stops_behind fun _ => inferInstance
    · infer_instance
  -- The never type is its sign alone, so that the sign is ahead has to be known here.
  case h_5 => exact yields_skip_stopsAt (by decide) inferInstance hc
  case h_9 =>
    refine Stops.yields (stops_behind fun _ => stops_behind fun _ => stops_behind fun _ => stops_if ?_ ?_)
    · infer_instance
    · refine stops_before fun found => ?_
      split
      exact follows_if (follows_bind inferInstance fun _ => inferInstance) inferInstance
  all_goals exact Stops.yields inferInstance

theorem stops_bound : Stops (bound (n + 1)) := by
  unfold bound
  refine stops_take? (fun s => ?_) ?_
  · simp only [Option.isSome_some, if_true]
    infer_instance
  · rw [if_neg (by decide)]
    refine stops_optional (by decide) ?_ ?_
    · rw [if_pos rfl]
      infer_instance
    · rw [if_neg (by decide)]
      infer_instance

theorem follows_furtherBounds : Follows (furtherBounds (n + 1)) := by unfold furtherBounds; infer_instance

theorem stops_objectBound (isDyn : Bool) : Stops (objectBound (n + 1) isDyn) := by
  unfold objectBound
  refine stops_behind fun start => stops_behind fun atPointer => stops_if inferInstance ?_
  refine stops_behind fun ahead => ?_
  split
  case h_3 =>
    refine stops_before fun found => ?_
    split <;> infer_instance
  all_goals infer_instance

theorem stops_functionPointer : Stops (functionPointer (n + 1)) := by unfold functionPointer; infer_instance

theorem stops_path : Stops (path (n + 1)) := by
  unfold path
  refine stops_behind fun start => stops_behind fun ahead => ?_
  split
  · refine stops_behind fun _ => stops_behind fun _ => stops_behind fun _ => stops_if ?_ ?_
    · exact stops_behind fun _ => stops_behind fun _ => inferInstance
    · infer_instance
  · infer_instance
  · refine stops_take? (fun name => ?_) ?_
    · exact smaller.pathFrom _ _ _
    · exact stops_before fun first => smaller.pathFrom _ _ _

theorem follows_pathFrom (start : Cursor) (form : PathForm) (soFar : TypeExpr) :
    Follows (pathFrom (n + 1) start form soFar) := by
  unfold pathFrom
  refine follows_bind inferInstance fun texts => ?_
  split
  refine follows_if (follows_of_stops ?_) (follows_if (follows_of_stops ?_)
    (follows_if (follows_of_stops ?_) (follows_if (follows_of_stops ?_) inferInstance)))
  · refine stops_behind fun _ => stops_if inferInstance ?_
    exact stops_before fun name => follows_bind inferInstance fun found => smaller.pathFrom _ _ _
  · split <;> infer_instance
  · infer_instance
  · infer_instance

/-- A path that cannot end where it is goes on. -/
theorem stops_pathOpened (start : Cursor) (soFar : TypeExpr) :
    Stops (pathFrom (n + 1) start .opened soFar) := by
  unfold pathFrom
  refine stops_behind fun texts => ?_
  split
  refine stops_if ?_ (stops_if ?_ (stops_if ?_ (stops_if ?_ ?_)))
  · refine stops_behind fun _ => stops_if inferInstance ?_
    exact stops_before fun name => follows_bind inferInstance fun found => smaller.pathFrom _ _ _
  · split <;> infer_instance
  · infer_instance
  · infer_instance
  · rw [if_neg (by decide)]
    infer_instance

end Readers

instance typesStop (n : Nat) : TypesStop n := by
  induction n with
  | zero =>
    constructor <;> intros
    all_goals first | exact stops_failure | exact follows_of_stops stops_failure
  | succ n smaller =>
    exact ⟨stops_type, stops_bareType, stops_bound, follows_furtherBounds, stops_objectBound, stops_functionPointer,
      stops_path, follows_pathFrom, stops_pathOpened⟩

end ModelPool.Source.Reader
