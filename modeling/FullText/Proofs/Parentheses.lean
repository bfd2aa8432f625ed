import FullText.Proofs.Converted
import FullText.Proofs.FixedPoint
import FullText.Proofs.Places

/-!
# Which parentheses are kept

What repair leaves of a subtree stands together in the repaired tree (`staysTogether_repaired`). A
join of which one operand is dropped leaves the other operand as it is, in its own parentheses if it
has any: those of the join go. So the terms that are left of a group are in parentheses exactly if
the join inside the group where they meet is (`parentheses_kept_iff`).
-/

namespace FullText

namespace Tree

variable {l r s t u m : Tree} {c : Conjunction} {g e top : Bool} {x : Term} {xs : List Term}

/-- The terms of the tree `s` that are left in `u`. -/
def survivors (u s : Tree) : List Term := s.terms.filter fun x => x ∈ u.terms

theorem mem_survivors : x ∈ survivors u s ↔ x ∈ s.terms ∧ x ∈ u.terms := by
  simp [survivors]

theorem nodup_survivors (h : s.terms.Nodup) (u : Tree) : (survivors u s).Nodup :=
  h.filter _

/-- The tree is a join that has all of the terms, some of them in each operand. -/
def Meets (xs : List Term) : Tree → Prop
  | .leaf _ => False
  | .join l r _ _ _ => (∃ x ∈ xs, x ∈ l.terms) ∧ (∃ x ∈ xs, x ∈ r.terms) ∧
    ∀ x ∈ xs, x ∈ l.terms ++ r.terms

instance (xs : List Term) : DecidablePred (Meets xs)
  | .leaf _ => isFalse id
  | .join _ _ _ _ _ => inferInstanceAs (Decidable (_ ∧ _ ∧ _))

/-- A join in parentheses somewhere in the tree has just these terms. -/
def HasGroup (xs : List Term) (u : Tree) : Prop :=
  ∃ l r c e, IsSubtree (.join l r c true e) u ∧ (l.terms ++ r.terms).Perm xs

/-! ## Where terms meet -/

/-- Of two subtrees with a term in common, one lies in the other. -/
theorem IsSubtree.nested (hn : t.terms.Nodup) (hs : IsSubtree s t) (hu : IsSubtree u t)
    (hxs : x ∈ s.terms) (hxu : x ∈ u.terms) : IsSubtree s u ∨ IsSubtree u s := by
  induction t with
  | leaf l =>
    obtain rfl : s = .leaf l := hs
    obtain rfl : u = .leaf l := hu
    exact .inl (isSubtree_refl _)
  | join l r c g e ihl ihr =>
    obtain ⟨hnl, hnr, hlr⟩ := List.nodup_append.mp hn
    rcases hs with rfl | hs | hs <;> rcases hu with rfl | hu | hu
    · exact .inl (isSubtree_refl _)
    · exact .inr (.inr (.inl hu))
    · exact .inr (.inr (.inr hu))
    · exact .inl (.inr (.inl hs))
    · exact ihl hnl hs hu
    · exact absurd rfl (hlr x (hs.sublist.mem hxs) x (hu.sublist.mem hxu))
    · exact .inl (.inr (.inr hs))
    · exact absurd rfl (hlr x (hu.sublist.mem hxu) x (hs.sublist.mem hxs))
    · exact ihr hnr hs hu

/-- No tree below a join where terms meet has all of them. -/
theorem Meets.eq_of_isSubtree (h : Meets xs m) (hn : m.terms.Nodup) (hs : IsSubtree s m)
    (hxs : ∀ x ∈ xs, x ∈ s.terms) : s = m := by
  cases m with
  | leaf l => exact h.elim
  | join l r c g e =>
    obtain ⟨⟨x, hx, hxl⟩, ⟨y, hy, hyr⟩, -⟩ := h
    have hlr := (List.nodup_append.mp hn).2.2
    rcases hs with hs | hs | hs
    · exact hs
    · exact absurd rfl (hlr y (hs.sublist.mem (hxs y hy)) y hyr)
    · exact absurd rfl (hlr x hxl x (hs.sublist.mem (hxs x hx)))

theorem Meets.perm {ys : List Term} (h : Meets xs m) (hp : xs.Perm ys) : Meets ys m := by
  cases m with
  | leaf l => exact h.elim
  | join l r c g e =>
    obtain ⟨⟨x, hx, hxl⟩, ⟨y, hy, hyr⟩, hall⟩ := h
    exact ⟨⟨x, hp.mem_iff.mp hx, hxl⟩, ⟨y, hp.mem_iff.mp hy, hyr⟩,
      fun z hz => hall z (hp.mem_iff.mpr hz)⟩

theorem Meets.mem_terms (h : Meets xs m) (hx : x ∈ xs) : x ∈ m.terms := by
  cases m with
  | leaf l => exact h.elim
  | join l r c g e => exact h.2.2 x hx

theorem Meets.exists_mem (h : Meets xs m) : ∃ x ∈ xs, x ∈ m.terms := by
  cases m with
  | leaf l => exact h.elim
  | join l r c g e =>
    obtain ⟨⟨x, hx, -⟩, -, hall⟩ := h
    exact ⟨x, hx, hall x hx⟩

/-- Terms meet in one join only. -/
theorem Meets.unique (hs : Meets xs s) (hu : Meets xs u) (hn : t.terms.Nodup)
    (hst : IsSubtree s t) (hut : IsSubtree u t) : s = u := by
  obtain ⟨x, hx, hxs⟩ := hs.exists_mem
  rcases hst.nested hn hut hxs (hu.mem_terms hx) with h | h
  · exact hu.eq_of_isSubtree (hn.sublist hut.sublist) h fun y hy => hs.mem_terms hy
  · exact (hs.eq_of_isSubtree (hn.sublist hst.sublist) h fun y hy => hu.mem_terms hy).symm

/-- The terms of a join meet in it. -/
theorem Whole.meets (h : Whole (.join l r c g e)) (hxs : (l.terms ++ r.terms).Perm xs) :
    Meets xs (.join l r c g e) := by
  obtain ⟨hl, hr, -⟩ := h
  obtain ⟨x, hx⟩ := List.exists_mem_of_ne_nil _ hl.terms_ne_nil
  obtain ⟨y, hy⟩ := List.exists_mem_of_ne_nil _ hr.terms_ne_nil
  exact ⟨⟨x, hxs.mem_iff.mp (List.mem_append_left _ hx), hx⟩,
    ⟨y, hxs.mem_iff.mp (List.mem_append_right _ hy), hy⟩, fun z hz => hxs.mem_iff.mpr hz⟩

/-! ## What is left of a subtree -/

/-- Nothing of the tree `s` is left in `u`, or what `s` is repaired to stands in `u` and has all
that is left. -/
def StaysTogether (s u : Tree) : Prop :=
  (∀ x ∈ s.terms, x ∉ u.terms) ∨ s.repaired false ≠ absent ∧ IsSubtree (s.repaired false) u ∧
    ∀ x ∈ s.terms, x ∈ u.terms → x ∈ (s.repaired false).terms

theorem staysTogether_absent (s : Tree) : StaysTogether s absent :=
  .inl fun _ _ => List.not_mem_nil

theorem StaysTogether.settled (h : StaysTogether s u) (top : Bool) :
    StaysTogether s (settled top u) := by
  rcases settled_cases top u with h0 | ⟨h1, -⟩
  · rw [h0]
    exact staysTogether_absent s
  · rwa [h1]

theorem StaysTogether.kept (h : StaysTogether s u) (c : Conjunction) :
    StaysTogether s (kept c u) := by
  rcases kept_cases c u with h0 | ⟨h1, -⟩
  · rw [h0]
    exact staysTogether_absent s
  · rwa [h1]

/-- What stays together in an operand stays together where the operand stands and the other one has
none of the terms. -/
theorem StaysTogether.mono (h : StaysTogether s t)
    (hsub : ∀ r, r ≠ absent → IsSubtree r t → IsSubtree r u)
    (hmem : ∀ x ∈ s.terms, x ∈ u.terms → x ∈ t.terms) : StaysTogether s u := by
  rcases h with h | ⟨hne, hs, h⟩
  · exact .inl fun x hxs hx => h x hxs (hmem x hxs hx)
  · exact .inr ⟨hne, hsub _ hne hs, fun x hxs hx => h x hxs (hmem x hxs hx)⟩

theorem StaysTogether.united_left (h : StaysTogether s l) (hr : ∀ x ∈ s.terms, x ∉ r.terms)
    (c : Conjunction) (g : Bool) : StaysTogether s (united c g l r) :=
  h.mono (fun _ hne hs => (isSubtree_united hne).mpr (.inr (.inl hs)))
    fun x hxs hx => (mem_terms_united.mp hx).resolve_right (hr x hxs)

theorem StaysTogether.united_right (h : StaysTogether s r) (hl : ∀ x ∈ s.terms, x ∉ l.terms)
    (c : Conjunction) (g : Bool) : StaysTogether s (united c g l r) :=
  h.mono (fun _ hne hs => (isSubtree_united hne).mpr (.inr (.inr hs)))
    fun x hxs hx => (mem_terms_united.mp hx).resolve_left (hl x hxs)

theorem mem_terms_operand (h : x ∈ (kept c (t.repaired false)).terms) : x ∈ t.terms :=
  mem_terms_repaired ((terms_kept_sublist c _).mem h)

theorem staysTogether_self (t : Tree) : StaysTogether t (t.repaired false) := by
  by_cases h0 : t.repaired false = absent
  · rw [h0]
    exact staysTogether_absent t
  · exact .inr ⟨h0, isSubtree_refl _, fun _ _ hx => hx⟩

theorem staysTogether_repaired (hn : t.terms.Nodup) (hs : IsSubtree s t) (top : Bool) :
    StaysTogether s (t.repaired top) := by
  have hself (t : Tree) (top : Bool) : StaysTogether t (t.repaired top) := by
    have := (staysTogether_self t).settled top
    rwa [settled_repaired, Bool.false_or] at this
  induction t generalizing top with
  | leaf l =>
    obtain rfl : s = .leaf l := hs
    exact hself _ top
  | join l r c g e ihl ihr =>
    obtain ⟨hnl, hnr, hlr⟩ := List.nodup_append.mp hn
    rcases hs with rfl | hs | hs
    · exact hself _ top
    · refine (((ihl hnl hs false).kept c).united_left (fun x hx hxr => ?_) c g).settled top
      exact hlr x (hs.sublist.mem hx) x (mem_terms_operand hxr) rfl
    · refine (((ihr hnr hs false).kept c).united_right (fun x hx hxl => ?_) c g).settled top
      exact hlr x (mem_terms_operand hxl) x (hs.sublist.mem hx) rfl

/-! ## Where what is left of a tree meets -/

theorem exists_mem_operand (h : Whole t) (hne : kept c (t.repaired false) ≠ absent) :
    ∃ x ∈ (kept c (t.repaired false)).terms, x ∈ t.terms := by
  have hwhole : Whole (kept c (t.repaired false)) := by
    have hkept := kept_eq_self hne
    rw [hkept] at hne ⊢
    exact (repaired_settled (.inl h.built) false).whole.resolve_right hne
  obtain ⟨x, hx⟩ := List.exists_mem_of_ne_nil _ hwhole.terms_ne_nil
  exact ⟨x, hx, mem_terms_operand hx⟩

/-- Of two operands that are left, the terms meet in their join. -/
theorem meets_united (hl : Whole l) (hr : Whole r) (hla : kept c (l.repaired false) ≠ absent)
    (hra : kept c (r.repaired false) ≠ absent) (g : Bool) (c' : Conjunction) (g' e : Bool) :
    Meets (united c g (kept c (l.repaired false)) (kept c (r.repaired false))).terms
      (.join l r c' g' e) := by
  obtain ⟨x, hx, hxl⟩ := exists_mem_operand hl hla
  obtain ⟨y, hy, hyr⟩ := exists_mem_operand hr hra
  refine ⟨⟨x, mem_terms_united.mpr (.inl hx), hxl⟩, ⟨y, mem_terms_united.mpr (.inr hy), hyr⟩, ?_⟩
  intro z hz
  exact List.mem_append.mpr ((mem_terms_united.mp hz).imp mem_terms_operand mem_terms_operand)

theorem ne_absent_of_length (h : 2 ≤ t.terms.length) : t ≠ absent := by
  rintro rfl
  exact absurd h (by simp [terms])

theorem not_length_leaf (l : Leaf) : ¬ 2 ≤ (leaf l).terms.length := by
  cases l <;> simp [terms]

/-- If more than one term is left of a tree, they meet in a join of it that is in parentheses
exactly if they are. -/
theorem exists_meets_repaired (h : Whole t) (hlen : 2 ≤ (t.repaired false).terms.length) :
    ∃ m, IsSubtree m t ∧ Meets (t.repaired false).terms m ∧
      m.isGrouped = (t.repaired false).isGrouped := by
  induction t with
  | leaf l =>
    have hle := (terms_repaired_subperm (leaf l) false).length_le
    exact absurd (Nat.le_trans hlen hle) (not_length_leaf l)
  | join l r c g e ihl ihr =>
    obtain ⟨hl, hr, -⟩ := whole_join.mp h
    rw [repaired] at hlen ⊢
    obtain ⟨hw, -⟩ := (settled_cases false _).resolve_left (ne_absent_of_length hlen)
    rw [hw] at hlen ⊢
    -- an operand that is left alone takes the place of the join
    by_cases hla : kept c (l.repaired false) = absent
    · rw [hla, united_absent_left] at hlen ⊢
      have hkept := kept_eq_self (ne_absent_of_length hlen)
      rw [hkept] at hlen ⊢
      obtain ⟨m, hm, hmeets⟩ := ihr hr hlen
      exact ⟨m, .inr (.inr hm), hmeets⟩
    by_cases hra : kept c (r.repaired false) = absent
    · rw [hra, united_absent_right] at hlen ⊢
      have hkept := kept_eq_self (ne_absent_of_length hlen)
      rw [hkept] at hlen ⊢
      obtain ⟨m, hm, hmeets⟩ := ihl hl hlen
      exact ⟨m, .inr (.inl hm), hmeets⟩
    exact ⟨_, .inl rfl, meets_united hl hr hla hra g c g e,
      (isGrouped_united_of_ne_absent hla hra c g).symm⟩

/-- If a subtree has the terms, they are the terms of a group exactly if it is in parentheses. -/
theorem IsSubtree.hasGroup_iff (hs : IsSubtree s u) (hu : Whole u) (hn : u.terms.Nodup)
    (hp : s.terms.Perm xs) (hlen : 2 ≤ xs.length) : HasGroup xs u ↔ s.isGrouped = true := by
  cases s with
  | leaf l => exact absurd (hp.length_eq ▸ hlen) (not_length_leaf l)
  | join l r c g e =>
    constructor
    · rintro ⟨l', r', c', e', hs', hp'⟩
      have hm := (hu.of_isSubtree hs).meets hp
      rw [← ((hu.of_isSubtree hs').meets hp').unique hm hn hs' hs]
      rfl
    · intro hg
      obtain rfl : g = true := hg
      exact ⟨l, r, c, e, hs, hp⟩

theorem nodup_terms_repaired (h : t.terms.Nodup) (top : Bool) : (t.repaired top).terms.Nodup := by
  obtain ⟨xs, hp, hsub⟩ := terms_repaired_subperm t top
  exact hp.nodup_iff.mp (h.sublist hsub)

/-- The terms that are left of a subtree are those that it is repaired to, which stands in the
repaired tree. -/
theorem perm_survivors (hn : t.terms.Nodup) (hs : IsSubtree s t)
    (hne : survivors (t.repaired top) s ≠ []) : IsSubtree (s.repaired false) (t.repaired top) ∧
      (s.repaired false).terms.Perm (survivors (t.repaired top) s) := by
  obtain ⟨x, hx⟩ := List.exists_mem_of_ne_nil _ hne
  obtain ⟨hxs, hxt⟩ := mem_survivors.mp hx
  obtain ⟨-, hsub, hstays⟩ :=
    (staysTogether_repaired hn hs top).resolve_left fun h => h x hxs hxt
  have hns := hn.sublist hs.sublist
  refine ⟨hsub, ?_⟩
  refine (List.perm_ext_iff_of_nodup (nodup_terms_repaired hns false)
    (nodup_survivors hns _)).mpr fun y => ?_
  rw [mem_survivors]
  exact ⟨fun hy => ⟨mem_terms_repaired hy, hsub.sublist.mem hy⟩, fun hy => hstays y hy.1 hy.2⟩

/-- What is left of a subtree is in parentheses exactly if the join where it meets is. -/
theorem hasGroup_survivors_iff (h : Whole t) (hn : t.terms.Nodup) (hs : IsSubtree s t)
    (hlen : 2 ≤ (survivors (t.repaired top) s).length) :
    HasGroup (survivors (t.repaired top) s) (t.repaired top) ↔
      ∃ m, IsSubtree m s ∧ Meets (survivors (t.repaired top) s) m ∧ m.isGrouped = true := by
  have hpos : 0 < (survivors (t.repaired top) s).length := by omega
  obtain ⟨hsub, hp⟩ := perm_survivors hn hs (List.length_pos_iff.mp hpos)
  have hne : t.repaired top ≠ absent := by
    intro h0
    rw [h0] at hsub
    exact ne_absent_of_length (hp.length_eq ▸ hlen) hsub
  have hwhole := (repaired_settled (.inl h.built) top).whole.resolve_right hne
  rw [hsub.hasGroup_iff hwhole (nodup_terms_repaired hn top) hp hlen]
  obtain ⟨m, hm, hmeets, hgroup⟩ := exists_meets_repaired (h.of_isSubtree hs) (hp.length_eq ▸ hlen)
  rw [← hgroup]
  constructor
  · intro hg
    exact ⟨m, hm, hmeets.perm hp, hg⟩
  · rintro ⟨m', hm', hmeets', hg⟩
    rwa [(hmeets.perm hp).unique hmeets' (hn.sublist hs.sublist) hm hm']

/-- **Parentheses.** With the terms told apart by their places, what is left of a subtree stands
together in the repaired tree, and if more than one term is left, they are in parentheses exactly if
the join of the subtree where they meet is. So a group keeps its parentheses if a term is left of
each operand. If nothing is left of one operand, they go, unless a group inside has all that is
left. -/
theorem parentheses_kept_iff (t : Tree) (h : Whole t) (top : Bool) :
    ∃ u, t.placed.normalize top = .ok u ∧ t.normalize top = .ok (u.mapWords t.wordAt) ∧
      ∀ s, IsSubtree s t.placed → 2 ≤ (survivors u s).length →
        (∃ r, IsSubtree r u ∧ r.terms.Perm (survivors u s)) ∧
        (HasGroup (survivors u s) u ↔
          ∃ m, IsSubtree m s ∧ Meets (survivors u s) m ∧ m.isGrouped = true) := by
  refine ⟨_, normalize_of_built (.inl h.placed.built) top, ?_, fun s hs hlen => ⟨?_, ?_⟩⟩
  · rw [normalize_of_built (.inl h.built), repaired_placed]
  · have hpos : 0 < (survivors (t.placed.repaired top) s).length := by omega
    exact ⟨_, perm_survivors (nodup_terms_placed t) hs (List.length_pos_iff.mp hpos)⟩
  · exact hasGroup_survivors_iff h.placed (nodup_terms_placed t) hs hlen

/-- In `((a b) or -c)` the outer parentheses go and the inner ones stay. -/
theorem inner_parentheses_kept :
    ∃ t u : Tree, t = .join (.join (term { word := "a" }) (term { word := "b" }) .and true false)
        (term { word := "c", exclude := true }) .or true false ∧
      Whole t ∧ t.placed.normalize true = .ok u ∧ 2 ≤ (survivors u t.placed).length ∧
      HasGroup (survivors u t.placed) u := by
  have h : Whole (.join (.join (term { word := "a" }) (term { word := "b" }) .and true false)
      (term { word := "c", exclude := true }) .or true false) :=
    ⟨⟨trivial, trivial, rfl⟩, trivial, rfl⟩
  obtain ⟨u, hu, -, hall⟩ := parentheses_kept_iff _ h true
  refine ⟨_, u, rfl, h, hu, ?_⟩
  obtain rfl := Except.ok.inj ((normalize_of_built (.inl h.placed.built) true).symm.trans hu)
  have hgroup := (hall _ (isSubtree_refl _) (by decide +kernel)).2
  refine ⟨by decide +kernel, hgroup.mpr ⟨placedFrom 0 (.join (term { word := "a" })
    (term { word := "b" }) .and true false), ?_, by decide +kernel, rfl⟩⟩
  exact .inr (.inl (isSubtree_refl _))

/-- In `c (a or b or -z)` the parentheses go with the operand `-z`, and `b` is no longer joined to
`c`. -/
theorem parentheses_lost_with_operand :
    (∃ conv, Conversion.ofQuery .empty (some "c (a or b or -z)") = .ok conv ∧ conv.text =
      "FORMSOF(INFLECTIONAL, c) AND FORMSOF(INFLECTIONAL, a) OR FORMSOF(INFLECTIONAL, b)") ∧
    ∃ t s u, t = .join (term { word := "c" }) s .and false false ∧
      s = .join (.join (term { word := "a" }) (term { word := "b" }) .or false false)
        (term { word := "z", exclude := true }) .or true false ∧
      Whole t ∧ t.terms.Nodup ∧ t.normalize true = .ok u ∧ 2 ≤ (survivors u s).length ∧
      ¬ HasGroup (survivors u s) u := by
  have h : Whole (.join (term { word := "c" }) (.join (.join (term { word := "a" })
      (term { word := "b" }) .or false false) (term { word := "z", exclude := true }) .or true
      false) .and false false) := ⟨trivial, ⟨⟨trivial, trivial, rfl⟩, trivial, rfl⟩, rfl⟩
  refine ⟨⟨_, Conversion.ofQuery_eq _ _, by decide +kernel⟩, _, _, repaired _ true, rfl, rfl, h,
    by decide +kernel, normalize_of_built (.inl h.built) true, by decide +kernel, ?_⟩
  rintro ⟨l, r, c, e, hsub, -⟩
  simp [repaired, settled, united, kept, isExcluded, isGrouped, allowed, IsSubtree] at hsub

end Tree

end FullText
