/-!
# Computations that may fail

Where the answer of a computation in `Except` comes from, and where its fault: through a map
(`map_eq_ok_iff`, `map_eq_error_iff`), through a bind (`bind_eq_ok_iff`), and along a list, where it
does not matter whether the answers are changed on the way or at the end (`mapM_map_eq`).
-/

namespace Except

variable {ε α β γ : Type} {x : Except ε α} {f : α → β} {b : β} {e : ε}

/-! ## One computation -/

theorem map_eq_ok_iff : f <$> x = .ok b ↔ ∃ a, x = .ok a ∧ f a = b := by
  constructor
  · intro h
    cases x with
    | error => exact nomatch h
    | ok a => exact ⟨a, rfl, Except.ok.inj h⟩
  · rintro ⟨a, rfl, rfl⟩
    rfl

theorem map_eq_error_iff : f <$> x = .error e ↔ x = .error e := by
  constructor
  · intro h
    cases x with
    | error => exact congrArg Except.error (Except.error.inj h)
    | ok => exact nomatch h
  · rintro rfl
    rfl

theorem bind_eq_ok_iff {k : α → Except ε β} : x >>= k = .ok b ↔ ∃ a, x = .ok a ∧ k a = .ok b := by
  constructor
  · intro h
    cases x with
    | error => exact nomatch h
    | ok a => exact ⟨a, rfl, h⟩
  · rintro ⟨a, rfl, h⟩
    exact h

/-- A map has an answer where what it changes has one. -/
theorem exists_map_eq_ok (f : α → β) (h : ∃ a, x = .ok a) : ∃ b, f <$> x = .ok b := by
  obtain ⟨a, ha⟩ := h
  exact ⟨f a, map_eq_ok_iff.mpr ⟨a, ha, rfl⟩⟩

/-! ## One computation for each item of a list -/

variable {k : α → Except ε β} {xs : List α}

/-- Where each item has an answer, so has the list. -/
theorem mapM_eq_ok (h : ∀ x ∈ xs, k x = .ok (f x)) : xs.mapM k = .ok (xs.map f) := by
  induction xs with
  | nil => rfl
  | cons x xs ih =>
    obtain ⟨hx, hxs⟩ := List.forall_mem_cons.mp h
    rw [List.mapM_cons, hx, ih hxs]
    rfl

/-- A list can be gone through first and its answers changed then. -/
theorem mapM_map_eq (k : α → Except ε β) (g : β → γ) (xs : List α) :
    xs.mapM (fun x => g <$> k x) = List.map g <$> xs.mapM k := by
  induction xs with
  | nil => rfl
  | cons x xs ih =>
    rw [List.mapM_cons, List.mapM_cons, ih]
    cases k x with
    | error => rfl
    | ok => cases xs.mapM k <;> rfl

end Except
