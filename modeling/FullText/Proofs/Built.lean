import FullText.Tree.Basic

/-!
# Trees of terms

`Built` holds of the trees that can be put together from terms with `joined`; the right child of a
join may be absent. `Whole` holds of those with no absent child. In both the stored exclusion of a
join is that of its children (`built_join`, `whole_join`).
-/

namespace FullText

namespace Tree

variable {l r t : Tree} {c : Conjunction} {g e : Bool}

/-- The terms of a tree in their order. -/
def terms : Tree → List Term
  | term t => [t]
  | .leaf _ => []
  | .join l r _ _ _ => l.terms ++ r.terms

/-- Whether a tree stands in parentheses. -/
def isGrouped : Tree → Bool
  | term t => t.grouped
  | .leaf _ => false
  | .join _ _ _ g _ => g

@[simp] theorem isExcluded_absent : absent.isExcluded = false := rfl

/-! ## Trees with an exclusion -/

/-- Reading the exclusion of the tree gives no fault. -/
def Readable (t : Tree) : Prop := t.excluded = .ok t.isExcluded

theorem readable_join : Readable (.join l r c g e) := rfl

theorem Readable.ne_absent (h : Readable t) : t ≠ absent := by
  rintro rfl
  exact absurd h (by simp [Readable, excluded])

theorem Readable.joined (hl : Readable l) (hr : Readable r) (c : Conjunction) (g : Bool) :
    joined l r c g = .ok (.join l r c g (l.isExcluded && r.isExcluded)) := by
  unfold Tree.joined
  rw [hl, hr]
  cases l.isExcluded <;> rfl

theorem Readable.joined_absent (hl : Readable l) (c : Conjunction) (g : Bool) :
    Tree.joined l absent c g =
      if l.isExcluded then .error (.noAttribute Leaf.absent.kind "exclude")
      else .ok (.join l absent c g false) := by
  unfold Tree.joined
  rw [hl]
  cases l.isExcluded <;> rfl

/-! ## Trees that can be built -/

/-- Put together from terms by `joined`. A right child may be absent. -/
def Built : Tree → Prop
  | term _ => True
  | .leaf _ => False
  | .join l r c g e =>
    Built l ∧ (Built r ∨ r = absent) ∧ Tree.joined l r c g = .ok (.join l r c g e)

theorem Built.readable (h : Built t) : Readable t := by
  cases t with
  | leaf l => cases l <;> first | rfl | exact h.elim
  | join => rfl

theorem Built.operands (h : Built (.join l r c g e)) : Built l ∧ (Built r ∨ r = absent) :=
  ⟨h.1, h.2.1⟩

/-- What `joined` gives for trees that are built is built. -/
theorem Built.of_joined (hl : Built l) (hr : Built r ∨ r = absent)
    (h : Tree.joined l r c g = .ok t) : Built t := by
  rcases hr with hr | rfl
  · rw [hl.readable.joined hr.readable] at h
    obtain rfl := Except.ok.inj h
    exact ⟨hl, .inl hr, hl.readable.joined hr.readable c g⟩
  · have hj := hl.readable.joined_absent c g
    rw [h] at hj
    split at hj
    · exact absurd hj (by simp)
    · obtain rfl := Except.ok.inj hj
      exact ⟨hl, .inr rfl, h⟩

theorem built_join : Built (.join l r c g e) ↔
    Built l ∧ (Built r ∨ r = absent ∧ l.isExcluded = false) ∧
      e = (l.isExcluded && r.isExcluded) := by
  constructor
  · rintro ⟨hl, hr | rfl, h⟩
    · rw [hl.readable.joined hr.readable] at h
      simp only [Except.ok.injEq, join.injEq, true_and] at h
      exact ⟨hl, .inl hr, h.symm⟩
    · rw [hl.readable.joined_absent] at h
      split at h
      · exact absurd h (by simp)
      · next he =>
        simp only [Except.ok.injEq, join.injEq, true_and] at h
        exact ⟨hl, .inr ⟨rfl, by simpa using he⟩, by simp [← h, he]⟩
  · rintro ⟨hl, hr | ⟨rfl, he⟩, rfl⟩
    · exact ⟨hl, .inl hr, hl.readable.joined hr.readable c g⟩
    · refine ⟨hl, .inr rfl, ?_⟩
      rw [hl.readable.joined_absent, he]
      rfl

/-- Put together from terms by `joined`. -/
def Whole : Tree → Prop
  | term _ => True
  | .leaf _ => False
  | .join l r c g e => Whole l ∧ Whole r ∧ Tree.joined l r c g = .ok (.join l r c g e)

theorem Whole.built (h : Whole t) : Built t := by
  induction t with
  | leaf l => cases l <;> trivial
  | join l r c g e ihl ihr =>
    obtain ⟨hl, hr, hj⟩ := h
    exact ⟨ihl hl, .inl (ihr hr), hj⟩

theorem Whole.readable (h : Whole t) : Readable t := h.built.readable

theorem Whole.ne_absent (h : Whole t) : t ≠ absent := h.readable.ne_absent

theorem whole_join : Whole (.join l r c g e) ↔
    Whole l ∧ Whole r ∧ e = (l.isExcluded && r.isExcluded) := by
  constructor
  · rintro ⟨hl, hr, h⟩
    rw [hl.readable.joined hr.readable] at h
    simp only [Except.ok.injEq, join.injEq, true_and] at h
    exact ⟨hl, hr, h.symm⟩
  · rintro ⟨hl, hr, rfl⟩
    exact ⟨hl, hr, hl.readable.joined hr.readable c g⟩

theorem Whole.terms_ne_nil (h : Whole t) : t.terms ≠ [] := by
  induction t with
  | leaf l =>
    cases l with
    | term u => simp [terms]
    | _ => exact h.elim
  | join l r c g e ihl _ => simp [terms, ihl h.1]

/-! ## Parentheses -/

theorem Whole.regroup (h : Whole t) (g : Bool) : t.regroup g = .ok (t.withGroup g) := by
  cases t with
  | leaf l => cases l <;> rfl
  | join l r c g' e =>
    obtain ⟨hl, hr, rfl⟩ := whole_join.mp h
    exact hl.readable.joined hr.readable c g

theorem Whole.withGroup (h : Whole t) (g : Bool) : Whole (t.withGroup g) := by
  cases t with
  | leaf l => cases l <;> trivial
  | join l r c g' e => exact whole_join.mpr (whole_join.mp h)

end Tree

end FullText
