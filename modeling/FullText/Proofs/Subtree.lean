import FullText.Proofs.Repair

/-!
# Subtrees

`IsSubtree` holds of a tree and the trees below it. What a tree says of each of its joins
(`EveryJoin`) and of each of its groups (`NoExcludedGroup`) it says of its own join and of both
children. The subtrees of a repaired join are those of its operands and the join itself
(`isSubtree_united`).
-/

namespace FullText

namespace Tree

variable {l r s t u : Tree} {c : Conjunction} {g e top : Bool}

/-- The tree itself, or a tree below it. -/
def IsSubtree (s : Tree) : Tree → Prop
  | .leaf l => s = .leaf l
  | .join l r c g e => s = .join l r c g e ∨ IsSubtree s l ∨ IsSubtree s r

theorem isSubtree_refl (t : Tree) : IsSubtree t t := by
  cases t with
  | leaf l => rfl
  | join l r c g e => exact .inl rfl

/-- What a join passes on to its operands, a tree passes on to what lies below it. -/
theorem IsSubtree.of_operands {P : Tree → Prop}
    (hP : ∀ l r c g e, P (.join l r c g e) → P l ∧ P r) (ht : P t) (hs : IsSubtree s t) : P s := by
  induction t with
  | leaf l =>
    rw [hs]
    exact ht
  | join l r c g e ihl ihr =>
    obtain ⟨hl, hr⟩ := hP l r c g e ht
    rcases hs with rfl | hs | hs
    · exact ht
    · exact ihl hl hs
    · exact ihr hr hs

theorem Whole.of_isSubtree (h : Whole t) (hs : IsSubtree s t) : Whole s :=
  hs.of_operands (fun _ _ _ _ _ h => ⟨h.1, h.2.1⟩) h

/-- What lies below a normal tree is normal. -/
theorem Normal.of_isSubtree (h : Normal t) (hs : IsSubtree s t) : Normal s :=
  hs.of_operands (fun _ _ _ _ _ h => ⟨h.1, h.2.1⟩) h

/-- The terms of a subtree are in the tree, in the same order. -/
theorem IsSubtree.sublist (h : IsSubtree s t) : s.terms.Sublist t.terms := by
  induction t with
  | leaf l =>
    obtain rfl : s = .leaf l := h
    exact .refl _
  | join l r c g e ihl ihr =>
    rcases h with rfl | h | h
    · exact .refl _
    · exact (ihl h).trans (List.sublist_append_left _ _)
    · exact (ihr h).trans (List.sublist_append_right _ _)

/-! ## Joins and groups of a tree -/

/-- The statement holds of the operands and the conjunction of each join in the tree. -/
def EveryJoin (P : Tree → Tree → Conjunction → Prop) (t : Tree) : Prop :=
  ∀ l r c g e, IsSubtree (.join l r c g e) t → P l r c

theorem everyJoin_leaf {P : Tree → Tree → Conjunction → Prop} (l : Leaf) :
    EveryJoin P (.leaf l) := by
  intro l' r' c g e h
  exact absurd h (by simp [IsSubtree])

theorem everyJoin_join {P : Tree → Tree → Conjunction → Prop} :
    EveryJoin P (.join l r c g e) ↔ P l r c ∧ EveryJoin P l ∧ EveryJoin P r := by
  constructor
  · intro h
    exact ⟨h l r c g e (.inl rfl), fun _ _ _ _ _ hl => h _ _ _ _ _ (.inr (.inl hl)),
      fun _ _ _ _ _ hr => h _ _ _ _ _ (.inr (.inr hr))⟩
  · rintro ⟨h, hl, hr⟩ l' r' c' g' e' (heq | hs | hs)
    · obtain ⟨rfl, rfl, rfl, -, -⟩ := Tree.join.inj heq
      exact h
    · exact hl _ _ _ _ _ hs
    · exact hr _ _ _ _ _ hs

/-- No operand of `OR` is excluded. -/
def OrsPositive (t : Tree) : Prop :=
  EveryJoin (fun l r c => c = .or → l.isExcluded = false ∧ r.isExcluded = false) t

/-- No term and no join in parentheses is excluded. -/
def NoExcludedGroup (t : Tree) : Prop :=
  ∀ s, IsSubtree s t → s.isGrouped = true → s.isExcluded = false

theorem noExcludedGroup_leaf {l : Leaf} : NoExcludedGroup (.leaf l) ↔
    ((leaf l).isGrouped = true → (leaf l).isExcluded = false) :=
  ⟨fun h => h _ rfl, fun h _ hs => hs ▸ h⟩

theorem noExcludedGroup_join : NoExcludedGroup (.join l r c g e) ↔
    (g = true → e = false) ∧ NoExcludedGroup l ∧ NoExcludedGroup r := by
  constructor
  · intro h
    exact ⟨h _ (.inl rfl), fun s hs => h s (.inr (.inl hs)), fun s hs => h s (.inr (.inr hs))⟩
  · rintro ⟨h, hl, hr⟩ s (rfl | hs | hs)
    · exact h
    · exact hl s hs
    · exact hr s hs

/-! ## Subtrees of a repaired tree -/

theorem isSubtree_settled (hs : s ≠ absent) :
    IsSubtree s (settled top t) ↔ settled top t ≠ absent ∧ IsSubtree s t := by
  rcases settled_cases top t with h0 | ⟨h1, -⟩
  · rw [h0]
    exact ⟨fun h => absurd h hs, fun h => absurd rfl h.1⟩
  · rw [h1]
    refine ⟨fun h => ⟨?_, h⟩, And.right⟩
    rintro rfl
    exact hs h

theorem isSubtree_kept (hs : s ≠ absent) :
    IsSubtree s (kept c t) ↔ (c = .or → t.isExcluded = false) ∧ IsSubtree s t := by
  unfold kept
  split
  · next h => exact ⟨fun hn => absurd hn hs, fun hn => absurd (hn.1 h.1) (by simp [h.2])⟩
  · next h => exact ⟨fun hn => ⟨fun hc => by simpa [hc] using h, hn⟩, And.right⟩

theorem isSubtree_united (hs : s ≠ absent) : IsSubtree s (united c g l r) ↔
    (l ≠ absent ∧ r ≠ absent ∧ s = united c g l r) ∨ IsSubtree s l ∨ IsSubtree s r := by
  have hno : ¬ IsSubtree s absent := hs
  by_cases hl : l = absent
  · simp [hl, hno]
  by_cases hr : r = absent
  · simp [hr, hno]
  rw [united_of_ne_absent hl hr]
  split
  · rw [IsSubtree, or_comm (a := IsSubtree s r)]
    simp [hl, hr]
  · rw [IsSubtree]
    simp [hl, hr]

end Tree

end FullText
