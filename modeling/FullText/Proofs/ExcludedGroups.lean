import FullText.Proofs.Parentheses
import FullText.Proofs.Positives

/-!
# What is left of a group of exclusions

A group of exclusions is dropped as a whole, unless one of its operands has been dropped and the
other one has not: then what is left of that operand takes the place of the group, without its
parentheses (`Halved`), and stays, unless a tree of exclusions around it is dropped (`Unharmed`).
With the terms told apart by their places, no other group of exclusions leaves a term
(`excluded_group_left_iff`).
-/

namespace FullText

namespace Tree

variable {l r s t : Tree} {c : Conjunction} {g e top : Bool} {x : Term}

/-- Whether something is left of an operand of which each term is excluded. Of a join, that is what
is left of one operand if nothing is left of the other one, and nothing if the join is a group of
which both are left. -/
def lasts : Tree → Bool
  | term u => !u.grouped
  | .leaf _ => false
  | .join l r c g _ => c != .or && (l.lasts != r.lasts || l.lasts && r.lasts && !g)

/-- One operand of the join lasts, and the other one does not. -/
def Halved : Tree → Prop
  | .leaf _ => False
  | .join l r c _ _ => c ≠ .or ∧ l.lasts ≠ r.lasts

/-- If the tree is excluded, it lasts and is not the whole query. -/
def Stands (t : Tree) (top : Bool) : Prop :=
  t.isExcluded = true → t.lasts = true ∧ top = false

/-- No tree from the subtree `s` up to the whole tree is dropped as excluded, neither in its own
place nor as an operand of `OR`. -/
def Unharmed (s : Tree) : Tree → Bool → Prop
  | .leaf l, top => Stands (.leaf l) top ∧ s = .leaf l
  | .join l r c g e, top => Stands (.join l r c g e) top ∧ (s = .join l r c g e ∨
    ((c = .or → l.isExcluded = false) ∧ Unharmed s l false) ∨
    ((c = .or → r.isExcluded = false) ∧ Unharmed s r false))

/-! ## Trees of exclusions -/

/-- A group lasts only if it loses an operand. -/
theorem halved_of_lasts (hg : t.isGrouped = true) (h : t.lasts = true) : Halved t := by
  cases t with
  | leaf l => cases l <;> simp_all [isGrouped, lasts]
  | join l r c g e =>
    obtain rfl : g = true := hg
    simpa [lasts, Halved] using h

/-- What is left of a tree is excluded if the tree is. -/
theorem Whole.isExcluded_repaired_eq (h : Whole t) (hne : t.repaired top ≠ absent) :
    (t.repaired top).isExcluded = t.isExcluded := by
  have hu := (repaired_settled (.inl h.built) top).whole.resolve_right hne
  rw [Bool.eq_iff_iff, hu.built.isExcluded_iff, h.built.isExcluded_iff,
    positives_repaired (.inl h.built)]

theorem Whole.kept_or_repaired (h : Whole t) (he : t.isExcluded = true) :
    kept .or (t.repaired false) = absent := by
  by_contra hne
  have hkept := kept_eq_self hne
  rw [hkept] at hne
  rw [kept, h.isExcluded_repaired_eq hne, he] at hkept
  exact hne (by simpa using hkept.symm)

/-- Two operands that are excluded stay together, unless their join is a group. -/
theorem settled_united_ne_absent_iff (hla : l ≠ absent) (hra : r ≠ absent)
    (hle : l.isExcluded = true) (hre : r.isExcluded = true) :
    settled false (united c g l r) ≠ absent ↔ g = false := by
  have hexcluded : (united c g l r).isExcluded = true := by
    rw [isExcluded_united_of_ne_absent hla hra, hle, hre]
    rfl
  have hne : united c g l r ≠ absent := by
    intro h0
    exact absurd hexcluded (by simp [h0])
  rw [settled, isGrouped_united_of_ne_absent hla hra, hexcluded]
  cases g <;> simp [hne]

/-- What lasts of a tree of exclusions is what repairing it leaves, if it is not the whole query. -/
theorem Whole.repaired_ne_absent_iff_lasts (h : Whole t) (he : t.isExcluded = true) :
    t.repaired false ≠ absent ↔ t.lasts = true := by
  induction t with
  | leaf l =>
    cases l with
    | term u =>
      have hu : u.exclude = true := he
      cases hg : u.grouped <;> simp [repaired, settled, isGrouped, isExcluded, lasts, hu, hg]
    | _ => exact h.elim
  | join l r c g e ihl ihr =>
    obtain ⟨hl, hr, rfl⟩ := whole_join.mp h
    obtain ⟨hle, hre⟩ := Bool.and_eq_true_iff.mp he
    have hself (t : Tree) : settled false (t.repaired false) = t.repaired false :=
      settled_repaired t false false
    rw [repaired]
    by_cases hc : c = .or
    · subst hc
      rw [hl.kept_or_repaired hle, hr.kept_or_repaired hre]
      simp [settled, lasts]
    · have hor : (c != .or) = true := by simpa using hc
      rw [kept_of_ne_or hc, kept_of_ne_or hc, lasts, hor, Bool.true_and]
      have ihl := ihl hl hle
      have ihr := ihr hr hre
      by_cases hla : l.repaired false = absent
      · have hll : l.lasts = false := by simpa [hla] using ihl
        rw [hla, united_absent_left, hself, ihr, hll]
        simp
      by_cases hra : r.repaired false = absent
      · have hrl : r.lasts = false := by simpa [hra] using ihr
        rw [hra, united_absent_right, hself, ihl, hrl]
        simp
      rw [ihl.mp hla, ihr.mp hra, settled_united_ne_absent_iff hla hra
        ((hl.isExcluded_repaired_eq hla).trans hle) ((hr.isExcluded_repaired_eq hra).trans hre)]
      cases g <;> simp

theorem Whole.repaired_ne_absent_iff (h : Whole t) (top : Bool) :
    t.repaired top ≠ absent ↔ Stands t top := by
  cases he : t.isExcluded with
  | false => simp [Stands, he, (h.built.isExcluded_repaired he top).1]
  | true =>
    cases top with
    | false => simp [Stands, he, h.repaired_ne_absent_iff_lasts he]
    | true =>
      have habsent := (repaired_eq_absent_iff (.inl h.built)).mpr (h.built.isExcluded_iff.mp he)
      simp [Stands, he, habsent]

/-! ## Terms that are left -/

/-- Some term of the tree `s` is left in `u`. -/
def LeftIn (s u : Tree) : Prop := ∃ x ∈ s.terms, x ∈ u.terms

theorem mem_terms_kept : x ∈ (kept c t).terms ↔
    (c = .or → t.isExcluded = false) ∧ x ∈ t.terms := by
  unfold kept
  split
  · next hd => simp [terms, hd.1, hd.2]
  · next hd => exact ⟨fun hx => ⟨fun hc => by simpa [hc] using hd, hx⟩, And.right⟩

/-- A term of a repaired join is a term of an operand that is left. -/
theorem mem_terms_repaired_join : x ∈ ((join l r c g e).repaired top).terms ↔
    (join l r c g e).repaired top ≠ absent ∧ (x ∈ (kept c (l.repaired false)).terms ∨
      x ∈ (kept c (r.repaired false)).terms) := by
  rw [← mem_terms_united (c := c) (g := g), repaired]
  rcases settled_cases top (united c g (kept c (l.repaired false)) (kept c (r.repaired false)))
    with h0 | ⟨h1, -⟩
  · simp [h0, terms]
  · rw [h1]
    refine ⟨fun hx => ⟨?_, hx⟩, And.right⟩
    intro h0
    simp [h0, terms] at hx

theorem leftIn_kept (h : Whole t) : LeftIn s (kept c (t.repaired false)) ↔
    (c = .or → t.isExcluded = false) ∧ LeftIn s (t.repaired false) := by
  by_cases h0 : t.repaired false = absent
  · simp [LeftIn, kept, h0, terms]
  · simp only [LeftIn, mem_terms_kept, h.isExcluded_repaired_eq h0]
    constructor
    · rintro ⟨x, hx, hc, hu⟩
      exact ⟨hc, x, hx, hu⟩
    · rintro ⟨hc, x, hx, hu⟩
      exact ⟨x, hx, hc, hu⟩

theorem Whole.leftIn_self (h : Whole t) (hne : t.repaired top ≠ absent) :
    LeftIn t (t.repaired top) := by
  have hu := (repaired_settled (.inl h.built) top).whole.resolve_right hne
  obtain ⟨x, hx⟩ := List.exists_mem_of_ne_nil _ hu.terms_ne_nil
  exact ⟨x, mem_terms_repaired hx, hx⟩

theorem LeftIn.ne_absent {u : Tree} (h : LeftIn s u) : u ≠ absent := by
  rintro rfl
  obtain ⟨x, -, hx⟩ := h
  exact absurd hx (by simp [terms])

/-- What is dropped with no tree around it is left. -/
theorem Unharmed.leftIn (h : Whole t) (hs : Unharmed s t top) : LeftIn s (t.repaired top) := by
  induction t generalizing top with
  | leaf l =>
    obtain ⟨hstands, rfl⟩ := hs
    exact h.leftIn_self ((h.repaired_ne_absent_iff top).mpr hstands)
  | join l r c g e ihl ihr =>
    obtain ⟨hl, hr, -⟩ := whole_join.mp h
    obtain ⟨hstands, hs⟩ := hs
    have hne := (h.repaired_ne_absent_iff top).mpr hstands
    rcases hs with rfl | ⟨hc, hs⟩ | ⟨hc, hs⟩
    · exact h.leftIn_self hne
    · obtain ⟨x, hx, hxl⟩ := (leftIn_kept hl).mpr ⟨hc, ihl hl hs⟩
      exact ⟨x, hx, mem_terms_repaired_join.mpr ⟨hne, .inl hxl⟩⟩
    · obtain ⟨x, hx, hxr⟩ := (leftIn_kept hr).mpr ⟨hc, ihr hr hs⟩
      exact ⟨x, hx, mem_terms_repaired_join.mpr ⟨hne, .inr hxr⟩⟩

/-- What is left of a subtree is dropped with no tree around it, if no other place has its terms. -/
theorem LeftIn.unharmed (h : Whole t) (hn : t.terms.Nodup) (hs : IsSubtree s t)
    (hleft : LeftIn s (t.repaired top)) : Unharmed s t top := by
  have hstands := (h.repaired_ne_absent_iff top).mp hleft.ne_absent
  induction t generalizing top with
  | leaf l => exact ⟨hstands, hs⟩
  | join l r c g e ihl ihr =>
    obtain ⟨hl, hr, -⟩ := h
    obtain ⟨hnl, hnr, hlr⟩ := List.nodup_append.mp hn
    obtain ⟨x, hx, hxt⟩ := hleft
    obtain ⟨-, hxt⟩ := mem_terms_repaired_join.mp hxt
    refine ⟨hstands, ?_⟩
    rcases hs with rfl | hs | hs
    · exact .inl rfl
    · have hxl := hxt.resolve_right fun hxr =>
        hlr x (hs.sublist.mem hx) x (mem_terms_operand hxr) rfl
      obtain ⟨hc, hleft⟩ := (leftIn_kept hl).mp ⟨x, hx, hxl⟩
      have hstands := (hl.repaired_ne_absent_iff _).mp hleft.ne_absent
      exact .inr (.inl ⟨hc, ihl hl hnl hs hleft hstands⟩)
    · have hxr := hxt.resolve_left fun hxl =>
        hlr x (mem_terms_operand hxl) x (hs.sublist.mem hx) rfl
      obtain ⟨hc, hleft⟩ := (leftIn_kept hr).mp ⟨x, hx, hxr⟩
      have hstands := (hr.repaired_ne_absent_iff _).mp hleft.ne_absent
      exact .inr (.inr ⟨hc, ihr hr hnr hs hleft hstands⟩)

theorem Unharmed.stands (h : Unharmed s t top) : ∃ top', Stands s top' := by
  induction t generalizing top with
  | leaf l =>
    obtain ⟨hstands, rfl⟩ := h
    exact ⟨top, hstands⟩
  | join l r c g e ihl ihr =>
    rcases h with ⟨hstands, rfl | ⟨-, hs⟩ | ⟨-, hs⟩⟩
    · exact ⟨top, hstands⟩
    · exact ihl hs
    · exact ihr hs

/-- **Groups of exclusions.** With the terms told apart by their places, a term is left of a group
of which each term is excluded exactly if it is a join other than `OR` of which one operand is
dropped and the other one is not, and no tree of exclusions around it is dropped. Of any other group
of exclusions nothing is left. -/
theorem excluded_group_left_iff (t : Tree) (h : Whole t) (top : Bool) :
    ∃ u, t.placed.normalize top = .ok u ∧ t.normalize top = .ok (u.mapWords t.wordAt) ∧
      ∀ s, IsSubtree s t.placed → s.isGrouped = true → (∀ x ∈ s.terms, x.exclude = true) →
        ((∃ x ∈ s.terms, x ∈ u.terms) ↔ Halved s ∧ Unharmed s t.placed top) := by
  have hp := h.placed
  refine ⟨_, normalize_of_built (.inl hp.built) top, ?_, fun s hs hg he => ⟨fun hleft => ?_, ?_⟩⟩
  · rw [normalize_of_built (.inl h.built), repaired_placed]
  · have hunharmed := LeftIn.unharmed hp (nodup_terms_placed t) hs hleft
    obtain ⟨_, hstands⟩ := hunharmed.stands
    have hexcluded := (hp.of_isSubtree hs).built.isExcluded_iff.mpr (positives_eq_nil_iff.mpr he)
    exact ⟨halved_of_lasts hg (hstands hexcluded).1, hunharmed⟩
  · rintro ⟨-, hunharmed⟩
    exact hunharmed.leftIn hp

/-- In `c ((-a) (-b))` both operands of the outer group are dropped, and the group with them. -/
theorem nested_groups_dropped :
    ∃ t s u : Tree, t = .join (term { word := "c" })
        (.join (term { word := "a", exclude := true, grouped := true })
          (term { word := "b", exclude := true, grouped := true }) .and true true)
        .and false false ∧
      Whole t ∧ t.placed.normalize true = .ok u ∧ IsSubtree s t.placed ∧ s.isGrouped = true ∧
      (∀ x ∈ s.terms, x.exclude = true) ∧ s.terms.length = 2 ∧ ¬ ∃ x ∈ s.terms, x ∈ u.terms := by
  have h : Whole (.join (term { word := "c" })
      (.join (term { word := "a", exclude := true, grouped := true })
        (term { word := "b", exclude := true, grouped := true }) .and true true)
      .and false false) :=
    ⟨trivial, ⟨trivial, trivial, rfl⟩, rfl⟩
  obtain ⟨u, hu, -, hall⟩ := excluded_group_left_iff _ h true
  have hs := isSubtree_refl (placedFrom 1
    (.join (term { word := "a", exclude := true, grouped := true })
      (term { word := "b", exclude := true, grouped := true }) .and true true))
  have hiff := hall _ (.inr (.inr hs)) rfl (by decide)
  refine ⟨_, _, u, rfl, h, hu, .inr (.inr hs), rfl, by decide, rfl, fun hleft => ?_⟩
  obtain ⟨-, hhalved⟩ := (hiff.mp hleft).1
  exact hhalved rfl

/-- In `c ((-a) -b)` the group loses `-a`, and `-b` stays without it. -/
theorem exclusion_left_of_group :
    (∃ conv, Conversion.ofQuery .empty (some "c ((-a) -b)") = .ok conv ∧
      conv.text = "FORMSOF(INFLECTIONAL, c) AND NOT FORMSOF(INFLECTIONAL, b)") ∧
    ∃ t s u, t = .join (term { word := "c" }) s .and false false ∧
      s = .join (term { word := "a", exclude := true, grouped := true })
        (term { word := "b", exclude := true }) .and true true ∧
      Whole t ∧ t.terms.Nodup ∧ IsSubtree s t ∧ s.isGrouped = true ∧
      (∀ x ∈ s.terms, x.exclude = true) ∧ t.normalize true = .ok u ∧
      ∃ x ∈ s.terms, x ∈ u.terms := by
  have h : Whole (.join (term { word := "c" })
      (.join (term { word := "a", exclude := true, grouped := true })
        (term { word := "b", exclude := true }) .and true true) .and false false) :=
    ⟨trivial, ⟨trivial, trivial, rfl⟩, rfl⟩
  exact ⟨⟨_, Conversion.ofQuery_eq _ _, by decide +kernel⟩, _, _, repaired _ true, rfl, rfl, h,
    by decide, .inr (.inr (isSubtree_refl _)), rfl, by decide,
    normalize_of_built (.inl h.built) true, { word := "b", exclude := true }, by decide, by decide⟩

end Tree

end FullText
