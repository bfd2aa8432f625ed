import FullText.Proofs.Subtree

/-!
# Trees that need no repair

A normal tree is repaired to itself (`Normal.repaired_eq`), and a repaired tree is normal or absent,
so one repair is enough: a second one only drops what cannot be the whole query
(`repaired_repaired`). The trees that repair leaves alone are those of which each join and each
group satisfies what `NeedsNoRepair` lists (`normalize_fixed_iff`).
-/

namespace FullText

namespace Tree

variable {l r t u : Tree} {c : Conjunction} {g e top top' : Bool}

/-! ## Repair of normal trees -/

theorem Normal.settled_false (h : Normal t) : Tree.settled false t = t :=
  settled_eq_self h.isExcluded_of_isGrouped (by simp)

/-- Joining the operands of a sound join again changes nothing. -/
theorem Sound.united_eq (h : Sound l r c g e) (hl : l ≠ absent) (hr : r ≠ absent) :
    united c g (kept c l) (kept c r) = .join l r c g e := by
  have hkl : kept c l = l := if_neg fun hd => absurd (h.or hd.1).1 (by simp [hd.2])
  have hkr : kept c r = r := if_neg fun hd => absurd (h.or hd.1).2 (by simp [hd.2])
  have hc : allowed l r c = c := by
    cases c with
    | near => simp [allowed, h.near rfl]
    | _ => rfl
  have hswap : (l.isExcluded && !r.isExcluded) = false := by
    cases he : l.isExcluded with
    | false => rfl
    | true => simp [h.order he]
  rw [hkl, hkr, united_of_ne_absent hl hr, hswap, hc, h.exclude]
  rfl

theorem Normal.repaired_eq (h : Normal t) (top : Bool) :
    t.repaired top = Tree.settled top t := by
  induction t generalizing top with
  | leaf l => rfl
  | join l r c g e ihl ihr =>
    obtain ⟨hl, hr, hs⟩ := h
    rw [repaired, ihl hl, ihr hr, hl.settled_false, hr.settled_false,
      hs.united_eq hl.ne_absent hr.ne_absent]

theorem Settled.repaired_eq (h : Settled top t) (top' : Bool) :
    t.repaired top' = settled top' t := by
  rcases h with rfl | ⟨hn, -⟩
  · rfl
  · exact hn.repaired_eq top'

/-! ## Repair of repaired trees -/

theorem settled_settled (top top' : Bool) (t : Tree) :
    settled top' (settled top t) = settled (top || top') t := by
  unfold settled
  cases he : t.isExcluded <;> cases hg : t.isGrouped <;> cases top <;> simp [he, hg]

/-- Whether a tree is the whole query counts only in the last step of its repair. -/
theorem settled_repaired (t : Tree) (top top' : Bool) :
    settled top' (t.repaired top) = t.repaired (top || top') := by
  cases t with
  | leaf l => exact settled_settled top top' _
  | join l r c g e => exact settled_settled top top' _

theorem repaired_repaired (h : Built t ∨ t = absent) (top top' : Bool) :
    (t.repaired top).repaired top' = t.repaired (top || top') := by
  rw [(repaired_settled h top).repaired_eq, settled_repaired]

/-! ## Fixed points -/

/-- What the joins and the groups of a tree satisfy that repair leaves alone. -/
structure NeedsNoRepair (t : Tree) (top : Bool) : Prop where
  present : EveryJoin (fun l r _ => l ≠ absent ∧ r ≠ absent) t
  groups : NoExcludedGroup t
  or : OrsPositive t
  near : EveryJoin (fun l r c => c = .near → l.isLiteralTerm = true ∧ r.isLiteralTerm = true) t
  order : EveryJoin (fun l r _ => l.isExcluded = true → r.isExcluded = true) t
  whole : top = true → t.isExcluded = false

theorem Normal.needsNoRepair (h : Normal t) (ht : top = true → t.isExcluded = false) :
    NeedsNoRepair t top where
  present _ _ _ _ _ hs := ⟨(h.of_isSubtree hs).1.ne_absent, (h.of_isSubtree hs).2.1.ne_absent⟩
  groups _ hs := (h.of_isSubtree hs).isExcluded_of_isGrouped
  or _ _ _ _ _ hs := (h.of_isSubtree hs).2.2.or
  near _ _ _ _ _ hs := (h.of_isSubtree hs).2.2.near
  order _ _ _ _ _ hs := (h.of_isSubtree hs).2.2.order
  whole := ht

theorem NeedsNoRepair.operands (h : NeedsNoRepair (.join l r c g e) top) :
    NeedsNoRepair l false ∧ NeedsNoRepair r false := by
  obtain ⟨-, hpl, hpr⟩ := everyJoin_join.mp h.present
  obtain ⟨-, hgl, hgr⟩ := noExcludedGroup_join.mp h.groups
  obtain ⟨-, hol, hor⟩ := everyJoin_join.mp h.or
  obtain ⟨-, hnl, hnr⟩ := everyJoin_join.mp h.near
  obtain ⟨-, hdl, hdr⟩ := everyJoin_join.mp h.order
  exact ⟨⟨hpl, hgl, hol, hnl, hdl, by simp⟩, ⟨hpr, hgr, hor, hnr, hdr, by simp⟩⟩

theorem NeedsNoRepair.normal (h : NeedsNoRepair t top) (hb : Built t) : Normal t := by
  induction t generalizing top with
  | leaf l =>
    cases l with
    | term u => exact h.groups _ rfl
    | _ => exact hb.elim
  | join l r c g e ihl ihr =>
    obtain ⟨hbl, hbr, he⟩ := built_join.mp hb
    obtain ⟨hl, hr⟩ := h.operands
    have hne := h.present l r c g e (.inl rfl)
    refine ⟨ihl hl hbl, ihr hr (hbr.resolve_right fun h0 => hne.2 h0.1), ?_⟩
    exact ⟨he, h.groups _ (.inl rfl), h.or l r c g e (.inl rfl), h.near l r c g e (.inl rfl),
      h.order l r c g e (.inl rfl)⟩

theorem repaired_eq_self_iff (h : Built t) (top : Bool) :
    t.repaired top = t ↔ NeedsNoRepair t top := by
  constructor
  · intro heq
    have hs := repaired_settled (.inl h) top
    rw [heq] at hs
    obtain ⟨hn, ht⟩ := hs.resolve_left h.readable.ne_absent
    exact hn.needsNoRepair ht
  · intro hn
    have hnormal := hn.normal h
    rw [hnormal.repaired_eq, settled_eq_self hnormal.isExcluded_of_isGrouped hn.whole]

/-- **Fixed points.** To repair a repaired tree again is to repair the tree once, as the whole query
if it was that either time; so repair is idempotent. It leaves a tree alone exactly if no child is
absent, no group is excluded, `OR` has no excluded operand, `NEAR` joins literal terms, no excluded
operand stands in front of one that is not, and the whole query is not excluded. -/
theorem normalize_fixed_iff (t : Tree) (h : Built t) :
    (∀ top top', ∃ u, t.normalize top = .ok u ∧ u.normalize top' = t.normalize (top || top')) ∧
    (∀ top, ∃ u, t.normalize top = .ok u ∧ u.normalize top = .ok u) ∧
    ∀ top, t.normalize top = .ok t ↔ NeedsNoRepair t top := by
  have hnorm (top : Bool) := normalize_of_built (.inl h) top
  have hagain (top top' : Bool) :
      (t.repaired top).normalize top' = .ok (t.repaired (top || top')) := by
    rw [normalize_of_built (repaired_settled (.inl h) top).built, repaired_repaired (.inl h)]
  refine ⟨fun top top' => ⟨_, hnorm top, ?_⟩, fun top => ⟨_, hnorm top, ?_⟩, fun top => ?_⟩
  · rw [hagain, hnorm]
  · rw [hagain, Bool.or_self]
  · rw [hnorm, Except.ok.injEq, repaired_eq_self_iff h]

/-- In `-a b` the operands change places, once. -/
theorem leading_exclusion_not_fixed :
    ∃ t u : Tree, t = .join (term { word := "a", exclude := true }) (term { word := "b" }) .and
        false false ∧
      Built t ∧ t.normalize false = .ok u ∧ u.normalize false = .ok u ∧ u ≠ t := by
  have h : Built (.join (term { word := "a", exclude := true }) (term { word := "b" }) .and
      false false) := ⟨trivial, .inl trivial, rfl⟩
  obtain ⟨-, hagain, hfixed⟩ := normalize_fixed_iff _ h
  obtain ⟨u, hu, huu⟩ := hagain false
  refine ⟨_, u, rfl, h, hu, huu, ?_⟩
  rintro rfl
  have horder := ((hfixed false).mp hu).order _ _ _ _ _ (.inl rfl)
  exact absurd (horder rfl) (by simp [isExcluded])

end Tree

end FullText
