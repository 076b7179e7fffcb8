import ModelPool.Program.Diagnostic

/-!
# Program/Reported — results with the diagnostics found on the way

A step of the checker gives a result and the diagnostics it found.  Steps in sequence find what the
first one finds, then what the second finds, so nothing that was found is lost.

* `found_bind` — the diagnostics of two steps.
-/

namespace ModelPool

/-- **A result with what was found on the way to it.** -/
structure Reported (α : Type) where
  value : α
  found : List Diagnostic

namespace Reported

variable {α β : Type}

instance : Monad Reported where
  pure a := ⟨a, []⟩
  bind r f := ⟨(f r.value).value, r.found ++ (f r.value).found⟩

instance : LawfulMonad Reported := LawfulMonad.mk' Reported
  (fun r => by cases r; simp [Functor.map])
  (fun a f => by simp [bind, pure])
  (fun r f g => by simp [bind])

/-- Nothing but diagnostics. -/
def report (ds : List Diagnostic) : Reported Unit := ⟨(), ds⟩

/-- A step that finds nothing. -/
@[simp] theorem value_pure (a : α) : (pure a : Reported α).value = a := rfl

@[simp] theorem found_pure (a : α) : (pure a : Reported α).found = [] := rfl

/-- The result of two steps is that of the second. -/
@[simp] theorem value_bind (r : Reported α) (f : α → Reported β) :
    (r >>= f).value = (f r.value).value := rfl

/-- **Two steps find what the first finds, then what the second finds.** -/
@[simp] theorem found_bind (r : Reported α) (f : α → Reported β) :
    (r >>= f).found = r.found ++ (f r.value).found := rfl

/-- A result that is changed is found on the same way. -/
@[simp] theorem value_map (f : α → β) (r : Reported α) : (f <$> r).value = f r.value := rfl

@[simp] theorem found_map (f : α → β) (r : Reported α) : (f <$> r).found = r.found :=
  List.append_nil _

@[simp] theorem found_report (ds : List Diagnostic) : (report ds).found = ds := rfl

end Reported

end ModelPool
