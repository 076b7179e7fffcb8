import Mathlib.Data.List.Forall2

/-!
# Proofs/Results — lists of steps that may fail

* `bind_eq_ok_iff` — two steps give a result if both do.
* `foldlM_eq_error_iff` — where a sequence of steps fails.
* `mapM_eq_ok_iff` — a step for each entry of a list.
* `Decides` — when a step gives a result, and what is known of it.
-/

namespace ModelPool

variable {ε α β : Type}

/-- Two steps give a result if both do. -/
theorem bind_eq_ok_iff {x : Except ε α} {f : α → Except ε β} {b : β} :
    (x >>= f) = .ok b ↔ ∃ a, x = .ok a ∧ f a = .ok b := by
  cases x with
  | error e => simp [bind, Except.bind]
  | ok a => simp [bind, Except.bind]

/-- And they fail if the first does, or the second behind it. -/
theorem bind_eq_error_iff {x : Except ε α} {f : α → Except ε β} {e : ε} :
    (x >>= f) = .error e ↔ x = .error e ∨ ∃ a, x = .ok a ∧ f a = .error e := by
  cases x with
  | error e => simp [bind, Except.bind]
  | ok a => simp [bind, Except.bind]

/-- What is kept of a step is its result. -/
theorem toOption_eq_some_iff {x : Except ε α} {a : α} : x.toOption = some a ↔ x = .ok a := by
  cases x <;> simp [Except.toOption]

/-- A step that does not fail gives a result. -/
theorem exists_eq_ok_of_isOk {x : Except ε α} (h : x.isOk = true) : ∃ a, x = .ok a := by
  cases x with
  | ok a => exact ⟨a, rfl⟩
  | error e => exact absurd h (by simp [Except.isOk, Except.toBool])

/-- **Steps in sequence fail** where one does and those before it do not. -/
theorem foldlM_eq_error_iff {f : β → α → Except ε β} {b : β} {l : List α} {e : ε} :
    l.foldlM f b = .error e ↔ ∃ before a after c, l = before ++ a :: after ∧
      before.foldlM f b = .ok c ∧ f c a = .error e := by
  induction l generalizing b with
  | nil => simp [pure, Except.pure]
  | cons a l ih =>
    rw [List.foldlM_cons, bind_eq_error_iff]
    constructor
    · rintro (hfirst | ⟨c, hc, hrest⟩)
      · exact ⟨[], a, l, b, rfl, rfl, hfirst⟩
      · obtain ⟨before, x, after, d, rfl, hd, hx⟩ := ih.1 hrest
        exact ⟨a :: before, x, after, d, rfl, bind_eq_ok_iff.2 ⟨c, hc, hd⟩, hx⟩
    · rintro ⟨before, x, after, c, heq, hc, hx⟩
      cases before with
      | nil =>
        obtain ⟨rfl, rfl⟩ := List.cons.inj heq
        obtain rfl := Except.ok.inj hc
        exact .inl hx
      | cons y before =>
        obtain ⟨rfl, rfl⟩ := List.cons.inj heq
        obtain ⟨d, hd, hrest⟩ := bind_eq_ok_iff.1 hc
        exact .inr ⟨d, hd, ih.2 ⟨before, x, after, c, rfl, hrest, hx⟩⟩

/-- **A step for each entry gives the results of all.** -/
theorem mapM_eq_ok_iff {f : α → Except ε β} {l : List α} {r : List β} :
    l.mapM f = .ok r ↔ List.Forall₂ (fun a b => f a = .ok b) l r := by
  induction l generalizing r with
  | nil => cases r <;> simp [pure, Except.pure]
  | cons a l ih =>
    rw [List.mapM_cons, bind_eq_ok_iff, List.forall₂_cons_left_iff]
    constructor
    · rintro ⟨b, hb, hrest⟩
      obtain ⟨bs, hbs, hr⟩ := bind_eq_ok_iff.1 hrest
      exact ⟨b, bs, hb, ih.1 hbs, (Except.ok.inj hr).symm⟩
    · rintro ⟨b, bs, hb, hbs, rfl⟩
      exact ⟨b, hb, bind_eq_ok_iff.2 ⟨bs, ih.2 hbs, rfl⟩⟩

/-- Each result is that of an entry. -/
theorem mem_of_mapM {f : α → Except ε β} {l : List α} {r : List β} (h : l.mapM f = .ok r) {b : β} :
    b ∈ r ↔ ∃ a ∈ l, f a = .ok b := by
  have hall := mapM_eq_ok_iff.1 h
  clear h
  induction hall with
  | nil => simp
  | @cons a c l r hac _ ih =>
    have hfirst : b = c ↔ f a = .ok b := by rw [hac, Except.ok.injEq, eq_comm]
    rw [List.mem_cons, List.exists_mem_cons_iff]
    exact or_congr hfirst ih

/-- Each entry has a result. -/
theorem exists_of_mapM {f : α → Except ε β} {l : List α} {r : List β} (h : l.mapM f = .ok r)
    {a : α} (ha : a ∈ l) : ∃ b, f a = .ok b := by
  have hall := mapM_eq_ok_iff.1 h
  clear h
  induction hall with
  | nil => exact absurd ha List.not_mem_nil
  | cons hac _ ih =>
    rcases List.mem_cons.1 ha with rfl | ha
    · exact ⟨_, hac⟩
    · exact ih ha

/-- Steps that give a result for each entry give one for all. -/
theorem exists_mapM_eq_ok {f : α → Except ε β} {l : List α} (h : ∀ a ∈ l, ∃ b, f a = .ok b) :
    ∃ r, l.mapM f = .ok r := by
  induction l with
  | nil => exact ⟨[], rfl⟩
  | cons a l ih =>
    obtain ⟨b, hb⟩ := h a List.mem_cons_self
    obtain ⟨r, hr⟩ := ih fun c hc => h c (List.mem_cons_of_mem _ hc)
    exact ⟨b :: r, mapM_eq_ok_iff.2 (.cons hb (mapM_eq_ok_iff.1 hr))⟩

/-- Steps that agree on the entries give the same. -/
theorem mapM_congr {f g : α → Except ε β} {l : List α} (h : ∀ a ∈ l, f a = g a) :
    l.mapM f = l.mapM g := by
  induction l with
  | nil => rfl
  | cons a l ih =>
    rw [List.mapM_cons, List.mapM_cons, h a List.mem_cons_self,
      ih fun b hb => h b (List.mem_cons_of_mem _ hb)]

/-- Lists that are related entry by entry have a partner for each entry. -/
theorem exists_of_forall₂ {r : α → β → Prop} {l : List α} {l' : List β}
    (h : List.Forall₂ r l l') {a : α} (ha : a ∈ l) : ∃ b ∈ l', r a b := by
  induction h with
  | nil => exact absurd ha List.not_mem_nil
  | cons hfirst _ ih =>
    rcases List.mem_cons.1 ha with rfl | ha
    · exact ⟨_, List.mem_cons_self, hfirst⟩
    · obtain ⟨b, hb, hab⟩ := ih ha
      exact ⟨b, List.mem_cons_of_mem _ hb, hab⟩

/-! ## When a step gives a result -/

/-- **A step gives a result exactly if a condition holds**, and the result has a property. -/
def Decides (x : Except ε α) (c : Prop) (P : α → Prop) : Prop :=
  match x with
  | .ok a => c ∧ P a
  | .error _ => ¬ c

namespace Decides

variable {x : Except ε α} {f : α → Except ε β} {c d : Prop} {P : α → Prop} {Q : β → Prop}

theorem exists_iff (h : Decides x c P) : (∃ a, x = .ok a) ↔ c := by
  cases x with
  | ok a => exact iff_of_true ⟨a, rfl⟩ h.1
  | error e => exact iff_of_false (by simp) h

theorem of_eq_ok (h : Decides x c P) {a : α} (ha : x = .ok a) : P a := by
  subst ha
  exact h.2

theorem congr (h : Decides x c P) (hc : c ↔ d) : Decides x d P := by
  cases x with
  | ok a => exact ⟨hc.1 h.1, h.2⟩
  | error e => exact mt hc.2 h

theorem imp {P' : α → Prop} (h : Decides x c P) (hP : ∀ a, P a → P' a) : Decides x c P' := by
  cases x with
  | ok a => exact ⟨h.1, hP a h.2⟩
  | error e => exact h

/-- Where there is a result, the condition holds. -/
theorem with_condition (h : Decides x c P) : Decides x c fun a => c ∧ P a := by
  cases x with
  | ok a => exact ⟨h.1, h⟩
  | error e => exact h

/-- What is made of a result is given where the result is. -/
theorem map {g : α → β} (h : Decides x c P) (hg : ∀ a, P a → Q (g a)) :
    Decides (x >>= fun a => pure (g a)) c Q := by
  cases x with
  | ok a => exact ⟨h.1, hg a h.2⟩
  | error e => exact h

/-- **Two steps give a result if both conditions hold.** -/
theorem bind (h : Decides x c P) (hf : ∀ a, P a → Decides (f a) d Q) :
    Decides (x >>= f) (c ∧ d) Q := by
  cases x with
  | error e => exact fun hcd => h hcd.1
  | ok a =>
    change Decides (f a) (c ∧ d) Q
    have hfa := hf a h.2
    cases hy : f a with
    | error e =>
      rw [hy] at hfa
      exact fun hcd => hfa hcd.2
    | ok b =>
      rw [hy] at hfa
      exact ⟨⟨h.1, hfa.1⟩, hfa.2⟩

end Decides

end ModelPool
