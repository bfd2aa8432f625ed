/-!
# Runs

Where the items of `w` all satisfy a condition and what follows `w` does not begin with one more
such item, `w` is what `takeWhile` takes (`takeWhile_run`) and `dropWhile` drops (`dropWhile_run`).
-/

namespace FullText

variable {α : Type} {p : α → Bool} {w rest : List α} {x : α}

theorem takeWhile_run (hw : ∀ y ∈ w, p y = true) (hrest : ∀ y ∈ rest.head?, p y = false) :
    (w ++ rest).takeWhile p = w := by
  rw [List.takeWhile_append_of_pos hw]
  cases rest with
  | nil => rw [List.takeWhile_nil, List.append_nil]
  | cons y rest => rw [List.takeWhile_cons_of_neg (by simp [hrest y rfl]), List.append_nil]

theorem dropWhile_run (hw : ∀ y ∈ w, p y = true) (hrest : ∀ y ∈ rest.head?, p y = false) :
    (w ++ rest).dropWhile p = rest := by
  rw [List.dropWhile_append_of_pos hw]
  cases rest with
  | nil => rfl
  | cons y rest => rw [List.dropWhile_cons_of_neg (by simp [hrest y rfl])]

/-- What does not hold an item is a run of others. -/
theorem bne_of_notMem [BEq α] [LawfulBEq α] (h : x ∉ w) : ∀ y ∈ w, (y != x) = true := by
  intro y hy
  exact bne_iff_ne.mpr fun he => h (he ▸ hy)

theorem notMem_takeWhile [BEq α] [LawfulBEq α] (x : α) (xs : List α) :
    x ∉ xs.takeWhile (· != x) := by
  intro hx
  have hne := List.all_eq_true.mp List.all_takeWhile x hx
  exact absurd rfl (bne_iff_ne.mp hne)

end FullText
