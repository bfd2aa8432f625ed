import FullText.Proofs.Positives
import FullText.Proofs.Subtree

/-!
# What a tree says of a document

A tree holds of some documents: those with the words of its terms, or without them where a term is
excluded. Repair drops conditions from a tree and adds none, as long as no operand of `OR` is
excluded: then no document is lost (`holds_repaired`). Where no group is excluded either, there is
nothing to drop, and the repaired tree holds of the same documents (`repaired_reorders`).
-/

namespace FullText

namespace Tree

variable {l r t : Tree} {c : Conjunction} {g e top : Bool} {v : String → TermForm → Bool}

/-- Whether the tree holds where `v` tells which words are found in which form. An absent tree sets
no condition. -/
def holds (v : String → TermForm → Bool) : Tree → Bool
  | term u => v u.word u.form != u.exclude
  | .leaf _ => true
  | .join l r c _ _ => if c = .or then l.holds v || r.holds v else l.holds v && r.holds v

@[simp] theorem holds_absent : holds v absent = true := rfl

/-! ## One join at a time -/

theorem holds_settled (h : t.holds v = true) (top : Bool) : (settled top t).holds v = true := by
  rcases settled_cases top t with h0 | ⟨h1, -⟩
  · rw [h0, holds_absent]
  · rwa [h1]

theorem allowed_eq_or_iff : allowed l r c = .or ↔ c = .or := by
  constructor
  · exact of_allowed_eq_or
  · rintro rfl
    rfl

/-- `NEAR` says no more than `AND`, and the order of operands does not matter. -/
theorem holds_united_of_ne_absent (hl : l ≠ absent) (hr : r ≠ absent) (c : Conjunction) (g : Bool) :
    (united c g l r).holds v = (join l r c g e).holds v := by
  rw [united_of_ne_absent hl hr]
  split
  · simp only [holds, allowed_eq_or_iff]
    split
    · exact Bool.or_comm _ _
    · exact Bool.and_comm _ _
  · simp only [holds, allowed_eq_or_iff]

theorem holds_united (hc : c ≠ .or) (g : Bool) (l r : Tree) :
    (united c g l r).holds v = (l.holds v && r.holds v) := by
  by_cases hl : l = absent
  · rw [hl, united_absent_left, holds_absent, Bool.true_and]
  by_cases hr : r = absent
  · rw [hr, united_absent_right, holds_absent, Bool.and_true]
  · rw [holds_united_of_ne_absent (e := false) hl hr, holds, if_neg hc]

/-- Without an excluded operand of `OR`, no operand is dropped. -/
theorem kept_repaired_operand (h : Whole t) (he : c = .or → t.isExcluded = false) :
    kept c (t.repaired false) = t.repaired false :=
  if_neg fun hd => absurd (h.built.isExcluded_repaired (he hd.1) false).2 (by simp [hd.2])

/-! ## Documents that are kept -/

theorem holds_repaired (h : Whole t) (hor : OrsPositive t) (top : Bool) (ht : t.holds v = true) :
    (t.repaired top).holds v = true := by
  induction t generalizing top with
  | leaf l => exact holds_settled ht top
  | join l r c g e ihl ihr =>
    obtain ⟨hl, hr, -⟩ := whole_join.mp h
    obtain ⟨hc, hol, hor⟩ := everyJoin_join.mp hor
    rw [repaired, kept_repaired_operand hl fun ho => (hc ho).1,
      kept_repaired_operand hr fun ho => (hc ho).2]
    refine holds_settled ?_ top
    by_cases ho : c = .or
    · have hla := (hl.built.isExcluded_repaired (hc ho).1 false).1
      have hra := (hr.built.isExcluded_repaired (hc ho).2 false).1
      rw [holds, if_pos ho] at ht
      rw [holds_united_of_ne_absent (e := false) hla hra, holds, if_pos ho]
      rcases Bool.or_eq_true_iff.mp ht with ht | ht
      · rw [ihl hl hol false ht, Bool.true_or]
      · rw [ihr hr hor false ht, Bool.or_true]
    · rw [holds, if_neg ho] at ht
      obtain ⟨htl, htr⟩ := Bool.and_eq_true_iff.mp ht
      rw [holds_united ho, ihl hl hol false htl, ihr hr hor false htr]
      rfl

/-! ## Documents that stay the same -/

/-- The tree `u` is there and says what `t` says, its operands perhaps in another order. -/
structure Reorders (u t : Tree) : Prop where
  present : u ≠ absent
  exclude : u.isExcluded = t.isExcluded
  terms : u.terms.Perm t.terms
  holds : ∀ v, u.holds v = t.holds v

theorem Reorders.refl (h : t ≠ absent) : Reorders t t := ⟨h, rfl, .refl _, fun _ => rfl⟩

/-- Joining reordered operands reorders the join. -/
theorem Reorders.united {l' r' : Tree} (hl : Reorders l' l) (hr : Reorders r' r) (c : Conjunction)
    (g : Bool) : Reorders (united c g l' r') (.join l r c g (l.isExcluded && r.isExcluded)) where
  present := by
    rw [united_of_ne_absent hl.present hr.present]
    split <;> simp
  exclude := by
    rw [isExcluded_united_of_ne_absent hl.present hr.present, hl.exclude, hr.exclude]
    rfl
  terms := (terms_united_perm c g l' r').trans (hl.terms.append hr.terms)
  holds v := by
    rw [holds_united_of_ne_absent (e := false) hl.present hr.present]
    simp only [Tree.holds, hl.holds, hr.holds]

theorem repaired_reorders (h : Whole t) (hor : OrsPositive t) (hg : NoExcludedGroup t) (top : Bool)
    (ht : top = true → t.isExcluded = false) : Reorders (t.repaired top) t := by
  induction t generalizing top with
  | leaf l =>
    show Reorders (settled top (leaf l)) (leaf l)
    rw [settled_eq_self (hg _ rfl) ht]
    exact .refl h.ne_absent
  | join l r c g e ihl ihr =>
    obtain ⟨hl, hr, rfl⟩ := whole_join.mp h
    obtain ⟨hc, hol, hor⟩ := everyJoin_join.mp hor
    obtain ⟨hge, hgl, hgr⟩ := noExcludedGroup_join.mp hg
    have hl' := ihl hl hol hgl false (by simp)
    have hr' := ihr hr hor hgr false (by simp)
    have hlr := hl'.united hr' c g
    rw [repaired, kept_repaired_operand hl fun ho => (hc ho).1,
      kept_repaired_operand hr fun ho => (hc ho).2, settled_eq_self]
    · exact hlr
    · rw [hlr.exclude, isGrouped_united_of_ne_absent hl'.present hr'.present]
      exact hge
    · rw [hlr.exclude]
      exact ht

/-- **Truth.** Where no operand of `OR` is excluded, repair loses no document. Where no group and
not the whole query is excluded either, the repaired tree is there, has the same terms and holds of
the same documents. -/
theorem repair_keeps_documents (t : Tree) (h : Whole t) (hor : OrsPositive t) (top : Bool) :
    ∃ u, t.normalize top = .ok u ∧ (∀ v, t.holds v = true → u.holds v = true) ∧
      (NoExcludedGroup t → ¬ (top = true ∧ t.isExcluded = true) →
        u ≠ absent ∧ (∀ v, u.holds v = t.holds v) ∧ u.terms.Perm t.terms) := by
  refine ⟨_, normalize_of_built (.inl h.built) top, fun v => holds_repaired h hor top, ?_⟩
  intro hg ht
  have hsame := repaired_reorders h hor hg top fun htop => by simpa [htop] using ht
  exact ⟨hsame.present, hsame.holds, hsame.terms⟩

/-- In `-a (b or c)` the operands change places, and nothing is lost. -/
theorem leading_exclusion_keeps_documents :
    ∃ t u : Tree, t = .join (term { word := "a", exclude := true })
        (.join (term { word := "b" }) (term { word := "c" }) .or true false) .and false false ∧
      Whole t ∧ OrsPositive t ∧ NoExcludedGroup t ∧ t.normalize true = .ok u ∧ u ≠ absent ∧
      (∀ v, u.holds v = t.holds v) ∧ u.terms.Perm t.terms := by
  obtain ⟨t, ht⟩ : ∃ t, t = Tree.join (term { word := "a", exclude := true })
      (.join (term { word := "b" }) (term { word := "c" }) .or true false) .and false false :=
    ⟨_, rfl⟩
  have h : Whole t := by
    rw [ht]
    exact ⟨trivial, ⟨trivial, trivial, rfl⟩, rfl⟩
  have hor : OrsPositive t := by
    simp [ht, OrsPositive, everyJoin_join, everyJoin_leaf, isExcluded]
  have hg : NoExcludedGroup t := by
    simp [ht, noExcludedGroup_join, noExcludedGroup_leaf, isGrouped]
  obtain ⟨u, hu, -, hsame⟩ := repair_keeps_documents t h hor true
  exact ⟨t, u, ht, h, hor, hg, hu, hsame hg (by simp [ht, isExcluded])⟩

end Tree

end FullText
