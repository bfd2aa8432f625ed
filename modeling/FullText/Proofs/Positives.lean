import FullText.Proofs.Converted

/-!
# What repair drops

Repair keeps the terms that are not excluded, in their order (`positives_repaired`): an operand that
changes its place or is dropped is excluded, and a tree is excluded only if all of its terms are. Of
the excluded terms it drops none outside an excluded tree that is a group, an operand of `OR` or the
whole query (`spared_subperm`). So nothing is left of a query just where nothing in it is wanted
(`only_exclusions_dropped`).
-/

namespace FullText

namespace Tree

variable {l r t : Tree} {c : Conjunction} {g e top : Bool}

/-- The terms that are not excluded, in their order. -/
def positives (t : Tree) : List Term := t.terms.filter fun u => !u.exclude

/-- The terms that are excluded, in their order. -/
def negatives (t : Tree) : List Term := t.terms.filter fun u => u.exclude

/-- The terms outside the excluded subtrees that stand in parentheses, as an operand of `OR`, or
`alone`. -/
def spared : Tree → Bool → List Term
  | .leaf l, alone =>
    if ((leaf l).isGrouped || alone) && (leaf l).isExcluded then [] else (leaf l).terms
  | .join l r c g e, alone =>
    if (g || alone) && e then [] else l.spared (c == .or) ++ r.spared (c == .or)

@[simp] theorem positives_absent : positives absent = [] := rfl

@[simp] theorem positives_join :
    (join l r c g e).positives = l.positives ++ r.positives := List.filter_append ..

theorem positives_eq_nil_iff : t.positives = [] ↔ ∀ u ∈ t.terms, u.exclude = true := by
  simp [positives]

/-! ## Exclusion and terms -/

/-- A tree is excluded where all of its terms are. -/
theorem Built.isExcluded_iff (h : Built t) : t.isExcluded = true ↔ t.positives = [] := by
  induction t with
  | leaf l =>
    cases l with
    | term u => simp [isExcluded, positives, terms]
    | _ => exact h.elim
  | join l r c g e ihl ihr =>
    obtain ⟨hl, hr, he⟩ := built_join.mp h
    rw [isExcluded, he, positives_join, List.append_eq_nil_iff, Bool.and_eq_true, ihl hl]
    rcases hr with hr | ⟨rfl, hle⟩
    · rw [ihr hr]
    · rw [← ihl hl, hle]
      simp

theorem positives_of_isExcluded (h : Built t ∨ t = absent) (he : t.isExcluded = true) :
    t.positives = [] := by
  rcases h with h | rfl
  · exact h.isExcluded_iff.mp he
  · rfl

theorem built_united (hl : Built l ∨ l = absent) (hr : Built r ∨ r = absent) (c : Conjunction)
    (g : Bool) : Built (united c g l r) ∨ united c g l r = absent :=
  of_united (P := Built) id (fun _ _ _ hl hr => built_join.mpr ⟨hl, .inl hr, rfl⟩) hl hr c

/-! ## Terms that are not excluded -/

theorem positives_settled (h : Built t ∨ t = absent) (top : Bool) :
    (settled top t).positives = t.positives := by
  unfold settled
  split
  · next hd =>
    rw [positives_of_isExcluded h (Bool.and_eq_true_iff.mp hd).2]
    rfl
  · rfl

theorem positives_kept (h : Built t ∨ t = absent) (c : Conjunction) :
    (kept c t).positives = t.positives := by
  unfold kept
  split
  · next hd =>
    rw [positives_of_isExcluded h hd.2]
    rfl
  · rfl

/-- Operands change places only where the first one holds nothing but excluded terms. -/
theorem positives_united (hl : Built l ∨ l = absent) (c : Conjunction) (g : Bool) (r : Tree) :
    (united c g l r).positives = l.positives ++ r.positives := by
  by_cases hla : l = absent
  · rw [hla, united_absent_left]
    rfl
  by_cases hra : r = absent
  · rw [hra, united_absent_right, positives_absent, List.append_nil]
  rw [united_of_ne_absent hla hra]
  split
  · next hswap =>
    have hnil := positives_of_isExcluded hl (Bool.and_eq_true_iff.mp hswap).1
    rw [positives_join, hnil, List.append_nil, List.nil_append]
  · rw [positives_join]

/-- What a join is repaired to, before it is settled. -/
theorem positives_combined (hl : Settled false l) (hr : Settled false r) (c : Conjunction)
    (g : Bool) : (united c g (kept c l) (kept c r)).positives = l.positives ++ r.positives := by
  rw [positives_united (of_kept hl.built c), positives_kept hl.built, positives_kept hr.built]

theorem positives_repaired (h : Built t ∨ t = absent) (top : Bool) :
    (t.repaired top).positives = t.positives := by
  induction t generalizing top with
  | leaf l => exact positives_settled h top
  | join l r c g e ihl ihr =>
    obtain ⟨hl, hr⟩ := (h.resolve_right (by simp)).operands
    have hls := repaired_settled (.inl hl) false
    have hrs := repaired_settled hr false
    have hbuilt := built_united (of_kept hls.built c) (of_kept hrs.built c) c g
    show (settled top _).positives = _
    rw [positives_settled hbuilt, positives_combined hls hrs, ihl (.inl hl), ihr hr, positives_join]

theorem Built.isExcluded_repaired (h : Built t) (he : t.isExcluded = false) (top : Bool) :
    t.repaired top ≠ absent ∧ (t.repaired top).isExcluded = false := by
  have hne : (t.repaired top).positives ≠ [] := by
    rw [positives_repaired (.inl h)]
    exact fun hn => absurd (h.isExcluded_iff.mpr hn) (by simp [he])
  constructor
  · intro h0
    exact hne (by rw [h0, positives_absent])
  · have hb := (repaired_settled (.inl h) top).built
    exact Bool.eq_false_iff.mpr fun hn => hne (positives_of_isExcluded hb hn)

theorem repaired_eq_absent_iff (h : Built t ∨ t = absent) :
    t.repaired true = absent ↔ t.positives = [] := by
  constructor
  · intro h0
    rw [← positives_repaired h true, h0, positives_absent]
  · intro hn
    rcases repaired_settled h true with h0 | ⟨hnormal, he⟩
    · exact h0
    · rw [← positives_repaired h true] at hn
      exact absurd (hnormal.whole.built.isExcluded_iff.mpr hn) (by simp [he rfl])

/-! ## Excluded terms -/

@[simp] theorem spared_absent (alone : Bool) : absent.spared alone = [] := by
  simp [spared, isExcluded, terms]

theorem spared_sublist (t : Tree) (alone : Bool) :
    (t.spared alone).Sublist (t.spared false) := by
  cases alone with
  | false => exact .refl _
  | true =>
    cases t with
    | leaf l => cases h : (leaf l).isExcluded <;> simp [spared, h]
    | join l r c g e => cases e <;> simp [spared]

theorem spared_of_isExcluded (h : t.isExcluded = true) : t.spared true = [] := by
  cases t with
  | leaf l => simp [spared, h]
  | join l r c g e =>
    rw [isExcluded] at h
    simp [spared, h]

theorem isExcluded_of_repaired (h : Built t ∨ t = absent)
    (he : (t.repaired top).isExcluded = true) : t = absent ∨ t.isExcluded = true := by
  rcases h with h | rfl
  · refine .inr (eq_true_of_ne_false fun hn => ?_)
    exact absurd (h.isExcluded_repaired hn top).2 (by simp [he])
  · exact .inl rfl

theorem spared_subperm_kept (h : Built t ∨ t = absent)
    (ih : (t.spared false).Subperm (t.repaired false).terms) (c : Conjunction) :
    (t.spared (c == .or)).Subperm (kept c (t.repaired false)).terms := by
  unfold kept
  split
  · next hd =>
    rcases isExcluded_of_repaired h hd.2 with rfl | he
    · rw [spared_absent]
      exact List.nil_subperm
    · rw [hd.1, show ((Conjunction.or == .or) = true) from rfl, spared_of_isExcluded he]
      exact List.nil_subperm
  · exact (spared_sublist t _).subperm.trans ih

/-- Operands are settled, so an excluded tree that they are joined to is no group unless the join
is. -/
theorem isGrouped_united (hl : Settled false l) (hr : Settled false r)
    (he : (united c g (kept c l) (kept c r)).isExcluded = true)
    (hg : (united c g (kept c l) (kept c r)).isGrouped = true) : g = true := by
  have hno {t : Tree} (h : Settled false t) (he : (kept c t).isExcluded = true)
      (hg : (kept c t).isGrouped = true) : g = true := by
    rcases kept_cases c t with h0 | ⟨h1, -⟩
    · exact absurd he (by simp [h0])
    · rw [h1] at he hg
      rcases h with rfl | ⟨hn, -⟩
      · exact absurd he (by simp)
      · exact absurd he (by simp [hn.isExcluded_of_isGrouped hg])
  by_cases hla : kept c l = absent
  · rw [hla, united_absent_left] at he hg
    exact hno hr he hg
  by_cases hra : kept c r = absent
  · rw [hra, united_absent_right] at he hg
    exact hno hl he hg
  · rwa [isGrouped_united_of_ne_absent hla hra] at hg

/-- A join that is dropped once its operands are repaired is excluded, and a group or alone. -/
theorem spared_of_dropped (h : Built (.join l r c g e))
    (hd : ((united c g (kept c (l.repaired false)) (kept c (r.repaired false))).isGrouped || top)
      = true)
    (he : (united c g (kept c (l.repaired false)) (kept c (r.repaired false))).isExcluded = true) :
    (join l r c g e).spared top = [] := by
  obtain ⟨hl, hr⟩ := h.operands
  have hls := repaired_settled (.inl hl) false
  have hrs := repaired_settled hr false
  have hbuilt := built_united (of_kept hls.built c) (of_kept hrs.built c) c g
  have hpos : (join l r c g e).positives = [] := by
    rw [← positives_of_isExcluded hbuilt he, positives_combined hls hrs,
      positives_repaired (.inl hl), positives_repaired hr, positives_join]
  have hexclude : e = true := h.isExcluded_iff.mpr hpos
  have hgt : (g || top) = true := by
    rcases Bool.or_eq_true_iff.mp hd with hg | ht
    · rw [isGrouped_united hls hrs he hg, Bool.true_or]
    · rw [ht, Bool.or_true]
  rw [spared, hgt, hexclude]
  rfl

/-- **What repair drops.** No term is dropped outside an excluded subtree that is a group, an
operand of `OR` or the whole query. -/
theorem spared_subperm (h : Built t ∨ t = absent) (top : Bool) :
    (t.spared top).Subperm (t.repaired top).terms := by
  induction t generalizing top with
  | leaf l =>
    unfold repaired settled spared
    split <;> exact .refl _
  | join l r c g e ihl ihr =>
    have hjoin := h.resolve_right (by simp)
    obtain ⟨hl, hr⟩ := hjoin.operands
    show (spared _ top).Subperm (settled top (united c g (kept c _) (kept c _))).terms
    unfold settled
    split
    · next hd =>
      obtain ⟨hd, he⟩ := Bool.and_eq_true_iff.mp hd
      rw [spared_of_dropped hjoin hd he]
      exact List.nil_subperm
    · rw [spared]
      split
      · exact List.nil_subperm
      · have hboth := (spared_subperm_kept (.inl hl) (ihl (.inl hl) false) c).append
          (spared_subperm_kept hr (ihr hr false) c)
        exact hboth.trans (terms_united_perm c g _ _).symm.subperm

/-! ## Empty queries -/

theorem Whole.write_ne_nil (h : Whole t) : Query.write (Query.ofTree t) ≠ [] := by
  cases t with
  | leaf l =>
    cases l with
    | term u =>
      show Query.write (Query.ofTerm u) ≠ []
      rw [Query.write_ofTerm]
      unfold Term.write TermForm.write
      split <;> split <;> simp
    | _ => exact h.elim
  | join l r c g e => cases g <;> simp [Query.ofTree, Query.Token.write]

/-- The text of a conversion is empty only where its tree is absent. -/
theorem isEmpty_iff_of_ofQuery {words : StopWords} {query : Option String} {conv : Conversion}
    (h : Conversion.ofQuery words query = .ok conv) :
    conv.isEmpty = true ↔ conv.tree = absent := by
  rw [Conversion.ofQuery_eq] at h
  obtain rfl := Except.ok.inj h
  rcases Conversion.treeOf_settled words query with h0 | ⟨hn, -⟩
  · simp [Conversion.isEmpty, h0, Query.ofTree]
  · have hne := hn.whole.write_ne_nil
    simp [Conversion.isEmpty, hn.ne_absent, ← String.toList_inj, hne]

/-- **Exclusions only.** Repair keeps the terms that are not excluded, in their order, and drops an
excluded one only with an excluded subtree that is a group, an operand of `OR` or the whole query. A
whole query is dropped just where all of its terms are excluded, and then only its text is empty. -/
theorem only_exclusions_dropped :
    (∀ t : Tree, t.Built → ∀ top, ∃ u, t.normalize top = .ok u ∧ u.positives = t.positives ∧
      u.negatives.Subperm t.negatives ∧ (t.spared top).Subperm u.terms) ∧
    (∀ t : Tree, t.Built →
      (t.normalize true = .ok absent ↔ ∀ x ∈ t.terms, x.exclude = true)) ∧
    ∀ words query, ∃ t c, Search.parse (query.getD "") .and words = .ok t ∧
      Conversion.ofQuery words query = .ok c ∧ (c.isEmpty = true ↔ c.tree = absent) ∧
      (c.tree = absent ↔ t.positives = []) := by
  refine ⟨fun t h top => ?_, fun t h => ?_, fun words query => ?_⟩
  · exact ⟨_, normalize_of_built (.inl h) top, positives_repaired (.inl h) top,
      (terms_repaired_subperm t top).filter _, spared_subperm (.inl h) top⟩
  · rw [normalize_of_built (.inl h) true, Except.ok.injEq, repaired_eq_absent_iff (.inl h),
      positives_eq_nil_iff]
  · have hconv := Conversion.ofQuery_eq words query
    exact ⟨_, _, Conversion.parse_query words query, hconv, isEmpty_iff_of_ofQuery hconv,
      repaired_eq_absent_iff (Search.built_buildText _ _ _)⟩

/-- In `(-a -b) c or -d` the group and the operand of `OR` are dropped. -/
theorem excluded_group_and_operand_dropped :
    ∃ t u : Tree, t = .join (.join (.join (term { word := "a", exclude := true })
        (term { word := "b", exclude := true }) .and true true) (term { word := "c" }) .and false
        false) (term { word := "d", exclude := true }) .or false false ∧
      Built t ∧ t.normalize true = .ok u ∧ u.positives = [{ word := "c" }] ∧ u ≠ absent := by
  have h : Built (.join (.join (.join (term { word := "a", exclude := true })
      (term { word := "b", exclude := true }) .and true true) (term { word := "c" }) .and false
      false) (term { word := "d", exclude := true }) .or false false) :=
    ⟨⟨⟨trivial, .inl trivial, rfl⟩, .inl trivial, rfl⟩, .inl trivial, rfl⟩
  obtain ⟨u, hu, hpos, -⟩ := only_exclusions_dropped.1 _ h true
  refine ⟨_, u, rfl, h, hu, hpos, ?_⟩
  rintro rfl
  have hall := (only_exclusions_dropped.2.1 _ h).mp hu
  exact absurd (hall { word := "c" } (by simp [terms])) (by simp)

end Tree

end FullText
