import Mathlib.Data.List.Perm.Subperm
import FullText.Proofs.Built
import FullText.Tree.Normalize

/-!
# Repair of built trees

A join is repaired from its repaired children (`repair_join`). On a tree that can be built no fault
occurs, and the repaired tree is `repaired` (`repair_of_built`), by recursion on both children.

`Normal` says that nothing in a tree is left to repair. `repaired_settled`: a repaired tree is
absent or normal, and not excluded where it is the whole query.
-/

namespace FullText

namespace Tree

variable {l r t u : Tree} {c : Conjunction} {g e top : Bool}

/-! ## One join at a time -/

theorem repair_leaf (l : Leaf) (top : Bool) : (leaf l).repair top = settle top (.leaf l) := by
  simp only [repair, walk, riseFrom, rise, List.isEmpty_nil, Bool.and_true]
  exact bind_pure _

/-- The levels above a tree are repaired on top of its own repair. -/
theorem walk_riseFrom (t : Tree) (levels : List (Level (Bool → Except Fault Repaired)))
    (top : Bool) :
    t.walk riseFrom levels top =
      t.walk riseFrom [] (top && levels.isEmpty) >>= fun below => rise top below levels := by
  refine congrFun (walk_eq_above (fun levels below top =>
    below (top && levels.isEmpty) >>= fun below => rise top below levels) ?_ ?_ t levels) top
  · intro l levels
    funext top
    simp only [riseFrom, List.isEmpty_nil, Bool.and_true]
    cases settle (top && levels.isEmpty) (.leaf l) <;> rfl
  · intro level levels below
    funext top
    rw [bind_assoc]
    simp only [List.isEmpty_cons, Bool.and_false]
    congr 1
    funext below
    simp only [rise, List.isEmpty_nil, Bool.and_true, bind_assoc]
    rfl

theorem repair_join (l r : Tree) (c : Conjunction) (g e top : Bool) :
    (join l r c g e).repair top = do
      let left ← l.repair false
      let right ← r.repair false
      let whole ← combine c g left.tree right.tree
      let settled ← settle top whole
      return ⟨settled.tree, left.dropped ++ right.dropped ++ settled.dropped⟩ := by
  show l.walk riseFrom [_] top = _
  rw [walk_riseFrom]
  simp only [rise, List.isEmpty_cons, List.isEmpty_nil, Bool.and_false, Bool.and_true]
  rfl

/-! ## Without faults -/

/-- What `settle` leaves of a tree. -/
def settled (top : Bool) (t : Tree) : Tree :=
  if (t.isGrouped || top) && t.isExcluded then absent else t

/-- What a conjunction leaves of an operand. -/
def kept (c : Conjunction) (t : Tree) : Tree := if c = .or ∧ t.isExcluded then absent else t

/-- The join of two operands of which either may be gone. -/
def united (c : Conjunction) (g : Bool) : Tree → Tree → Tree
  | absent, r => r
  | l, absent => l
  | l, r =>
    if l.isExcluded && !r.isExcluded then
      .join r l (allowed l r c) g (r.isExcluded && l.isExcluded)
    else .join l r (allowed l r c) g (l.isExcluded && r.isExcluded)

/-- The repaired tree, from the repaired children. -/
def repaired : Tree → Bool → Tree
  | .leaf l, top => settled top (.leaf l)
  | .join l r c g _, top =>
    settled top (united c g (kept c (l.repaired false)) (kept c (r.repaired false)))

theorem settled_cases (top : Bool) (t : Tree) : settled top t = absent ∨
    settled top t = t ∧ (t.isGrouped = true ∨ top = true → t.isExcluded = false) := by
  unfold settled
  split
  · exact .inl rfl
  · next h => exact .inr ⟨rfl, fun hg => by rcases hg with hg | hg <;> simpa [hg] using h⟩

theorem settled_eq_self (hg : t.isGrouped = true → t.isExcluded = false)
    (ht : top = true → t.isExcluded = false) : settled top t = t := by
  refine if_neg fun hd => ?_
  obtain ⟨hgt, he⟩ := Bool.and_eq_true_iff.mp hd
  rcases Bool.or_eq_true_iff.mp hgt with h | h
  · exact absurd (hg h) (by simp [he])
  · exact absurd (ht h) (by simp [he])

theorem kept_cases (c : Conjunction) (t : Tree) : kept c t = absent ∨
    kept c t = t ∧ (c = .or → t.isExcluded = false) := by
  unfold kept
  split
  · exact .inl rfl
  · next h => exact .inr ⟨rfl, fun hc => by simpa [hc] using h⟩

theorem kept_eq_self (h : kept c t ≠ absent) : kept c t = t :=
  ((kept_cases c t).resolve_left h).1

/-- Only `OR` drops operands. -/
theorem kept_of_ne_or (hc : c ≠ .or) (t : Tree) : kept c t = t := if_neg fun hd => hc hd.1

/-- What holds of an operand that is there holds of what a conjunction leaves of it. -/
theorem of_kept {P : Tree → Prop} (h : P t ∨ t = absent) (c : Conjunction) :
    P (kept c t) ∨ kept c t = absent := by
  rcases kept_cases c t with h0 | ⟨h1, -⟩
  · exact .inr h0
  · rwa [h1]

@[simp] theorem united_absent_left (c : Conjunction) (g : Bool) (r : Tree) :
    united c g absent r = r := rfl

@[simp] theorem united_absent_right (c : Conjunction) (g : Bool) (l : Tree) :
    united c g l absent = l := by
  cases l with
  | leaf l => cases l <;> rfl
  | join => rfl

theorem united_of_ne_absent (hl : l ≠ absent) (hr : r ≠ absent) (c : Conjunction) (g : Bool) :
    united c g l r =
      if l.isExcluded && !r.isExcluded then
        .join r l (allowed l r c) g (r.isExcluded && l.isExcluded)
      else .join l r (allowed l r c) g (l.isExcluded && r.isExcluded) := by
  unfold united
  split
  · exact absurd rfl hl
  · exact absurd rfl hr
  · rfl

theorem isGrouped_united_of_ne_absent (hl : l ≠ absent) (hr : r ≠ absent) (c : Conjunction)
    (g : Bool) : (united c g l r).isGrouped = g := by
  rw [united_of_ne_absent hl hr]
  split <;> rfl

theorem isExcluded_united_of_ne_absent (hl : l ≠ absent) (hr : r ≠ absent) (c : Conjunction)
    (g : Bool) : (united c g l r).isExcluded = (l.isExcluded && r.isExcluded) := by
  rw [united_of_ne_absent hl hr]
  split
  · exact Bool.and_comm _ _
  · rfl

/-- What joins of trees have in common with the trees holds of the join of two operands, unless both
are gone. -/
theorem of_united {P : Tree → Prop} (hP : ¬ P absent)
    (hjoin : ∀ l r c, P l → P r → P (.join l r c g (l.isExcluded && r.isExcluded)))
    (hl : P l ∨ l = absent) (hr : P r ∨ r = absent) (c : Conjunction) :
    P (united c g l r) ∨ united c g l r = absent := by
  have hne {t : Tree} (h : P t) : t ≠ absent := by
    rintro rfl
    exact hP h
  rcases hl with hl | rfl
  · rcases hr with hr | rfl
    · rw [united_of_ne_absent (hne hl) (hne hr)]
      split
      · exact .inl (hjoin r l _ hr hl)
      · exact .inl (hjoin l r _ hl hr)
    · rw [united_absent_right]
      exact .inl hl
  · exact hr

/-- Absent, or with an exclusion to read. -/
def Operand (t : Tree) : Prop := t = absent ∨ Readable t

theorem Operand.kept (h : Operand t) (c : Conjunction) : Operand (kept c t) := by
  rcases kept_cases c t with h0 | ⟨h1, -⟩
  · exact .inl h0
  · rwa [h1]

theorem Operand.united (hl : Operand l) (hr : Operand r) (c : Conjunction) (g : Bool) :
    Operand (united c g l r) := by
  rcases hl with rfl | hl
  · exact hr
  rcases hr with rfl | hr
  · rw [united_absent_right]
    exact .inr hl
  · rw [united_of_ne_absent hl.ne_absent hr.ne_absent]
    split <;> exact .inr readable_join

theorem Operand.settle_eq (h : Operand t) (top : Bool) :
    ∃ dropped, settle top t = .ok ⟨settled top t, dropped⟩ := by
  rcases h with rfl | h
  · exact ⟨[], by simp [settle, settled, isExcluded]⟩
  · cases t with
    | leaf l =>
      cases l with
      | term t =>
        cases hd : (t.grouped || top) && t.exclude <;>
          simp [settle, settled, isGrouped, isExcluded, hd]
      | absent => exact absurd rfl h.ne_absent
      | foreign f => exact absurd h (by simp [Readable, excluded])
    | join l r c g e =>
      cases hd : (g || top) && e <;> simp [settle, settled, isGrouped, isExcluded, hd]

theorem Operand.dropExcluded_eq (h : Operand t) :
    t.dropExcluded = .ok (Tree.kept .or t) := by
  rcases h with rfl | h
  · rfl
  · unfold dropExcluded
    split
    · exact absurd rfl h.ne_absent
    · rw [h]
      show Except.ok (if t.isExcluded = true then absent else t) = _
      cases he : t.isExcluded <;> simp [Tree.kept, he]

theorem Readable.ordered_eq (hl : Readable l) (hr : Readable r) (c : Conjunction) (g : Bool) :
    ordered l r c g = .ok (if l.isExcluded && !r.isExcluded then
      .join r l c g (r.isExcluded && l.isExcluded)
      else .join l r c g (l.isExcluded && r.isExcluded)) := by
  have hlr := hl.joined hr c g
  have hrl := hr.joined hl c g
  unfold ordered
  rw [hl, hr]
  cases he : l.isExcluded <;> cases he' : r.isExcluded <;> simp only [he, he'] at hlr hrl <;>
    first | exact hlr | exact hrl

/-- Only `OR` drops operands, and `OR` is always allowed. -/
theorem allowed_kept (c : Conjunction) (l r : Tree) :
    allowed (kept c l) (kept c r) c = allowed l r c := by
  cases c <;> simp [kept, allowed]

theorem Operand.combine_kept (hl : Operand l) (hr : Operand r) (c : Conjunction) (g : Bool) :
    combine c g l r = match Tree.kept c l, Tree.kept c r with
      | absent, r' => .ok r'
      | l', absent => .ok l'
      | l', r' => ordered l' r' (allowed l r c) g := by
  unfold combine
  by_cases hc : c = .or
  · subst hc
    rw [hl.dropExcluded_eq, hr.dropExcluded_eq]
    rfl
  · rw [kept_of_ne_or hc, kept_of_ne_or hc, if_neg hc]
    simp only [if_neg hc]
    rfl

theorem Operand.combine_eq (hl : Operand l) (hr : Operand r) (c : Conjunction) (g : Bool) :
    combine c g l r = .ok (Tree.united c g (Tree.kept c l) (Tree.kept c r)) := by
  have hl' := hl.kept c
  have hr' := hr.kept c
  rw [hl.combine_kept hr]
  split
  · next h => rw [h, united_absent_left]
  · next h _ => rw [h, united_absent_right]
  · next hla hra =>
    rw [(hl'.resolve_left hla).ordered_eq (hr'.resolve_left hra), united_of_ne_absent hla hra,
      allowed_kept]

/-! ## Normal trees -/

/-- What a join of a repaired tree satisfies. -/
structure Sound (l r : Tree) (c : Conjunction) (g e : Bool) : Prop where
  exclude : e = (l.isExcluded && r.isExcluded)
  group : g = true → e = false
  or : c = .or → l.isExcluded = false ∧ r.isExcluded = false
  near : c = .near → l.isLiteralTerm = true ∧ r.isLiteralTerm = true
  order : l.isExcluded = true → r.isExcluded = true

/-- Nothing in the tree is left to repair. -/
def Normal : Tree → Prop
  | term t => t.grouped = true → t.exclude = false
  | .leaf _ => False
  | .join l r c g e => Normal l ∧ Normal r ∧ Sound l r c g e

theorem Normal.whole (h : Normal t) : Whole t := by
  induction t with
  | leaf l => cases l <;> trivial
  | join l r c g e ihl ihr =>
    obtain ⟨hl, hr, hs⟩ := h
    exact whole_join.mpr ⟨ihl hl, ihr hr, hs.exclude⟩

theorem Normal.ne_absent (h : Normal t) : t ≠ absent := h.whole.ne_absent

theorem Normal.isExcluded_of_isGrouped (h : Normal t) (hg : t.isGrouped = true) :
    t.isExcluded = false := by
  cases t with
  | leaf l =>
    cases l with
    | term u => exact h hg
    | _ => exact h.elim
  | join l r c g e => exact h.2.2.group hg

/-- Absent or normal, and not excluded if it is the whole query. -/
def Settled (top : Bool) (t : Tree) : Prop :=
  t = absent ∨ Normal t ∧ (top = true → t.isExcluded = false)

theorem Settled.operand (h : Settled top t) : Operand t :=
  h.imp_right fun hn => hn.1.whole.readable

theorem Settled.whole (h : Settled top t) : Whole t ∨ t = absent :=
  h.symm.imp_left fun hn => hn.1.whole

theorem Settled.built (h : Settled top t) : Built t ∨ t = absent :=
  h.whole.imp_left Whole.built

theorem Normal.settled (h : Normal t) (top : Bool) : Settled top (settled top t) := by
  rcases settled_cases top t with h0 | ⟨h1, he⟩
  · exact .inl h0
  · rw [h1]
    exact .inr ⟨h, fun ht => he (.inr ht)⟩

/-- A join of two normal trees in the right order is settled, whatever it was before. -/
theorem settled_join (hl : Normal l) (hr : Normal r)
    (ho : c = .or → l.isExcluded = false ∧ r.isExcluded = false)
    (hn : c = .near → l.isLiteralTerm = true ∧ r.isLiteralTerm = true)
    (hlr : l.isExcluded = true → r.isExcluded = true) (g top : Bool) :
    Settled top (settled top (.join l r c g (l.isExcluded && r.isExcluded))) := by
  rcases settled_cases top (.join l r c g (l.isExcluded && r.isExcluded)) with h0 | ⟨h1, he⟩
  · exact .inl h0
  · rw [h1]
    exact .inr ⟨⟨hl, hr, rfl, fun hg => he (.inl hg), ho, hn, hlr⟩, fun ht => he (.inr ht)⟩

theorem of_allowed_eq_near (h : allowed l r c = .near) :
    l.isLiteralTerm = true ∧ r.isLiteralTerm = true := by
  cases c <;> simp_all [allowed]

theorem of_allowed_eq_or (h : allowed l r c = .or) : c = .or := by
  cases c with
  | and => exact absurd h (by simp [allowed])
  | or => rfl
  | near =>
    simp only [allowed] at h
    split at h <;> exact absurd h (by simp)

/-- Joining two settled operands and settling the result leaves nothing to repair. -/
theorem settled_united (hl : Settled false l) (hr : Settled false r) (c : Conjunction)
    (g top : Bool) : Settled top (settled top (united c g (kept c l) (kept c r))) := by
  have survivor {t : Tree} (h : Settled false t) :
      Settled top (settled top (kept c t)) ∧ (kept c t ≠ absent →
        Normal (kept c t) ∧ (c = .or → (kept c t).isExcluded = false)) := by
    rcases kept_cases c t with h0 | ⟨h1, he⟩
    · rw [h0]
      exact ⟨.inl (by simp [settled, isExcluded]), fun hn => absurd rfl hn⟩
    · rw [h1]
      rcases h with rfl | ⟨hn, -⟩
      · exact ⟨.inl (by simp [settled, isExcluded]), fun hn => absurd rfl hn⟩
      · exact ⟨hn.settled top, fun _ => ⟨hn, he⟩⟩
  by_cases hla : kept c l = absent
  · rw [hla, united_absent_left]
    exact (survivor hr).1
  by_cases hra : kept c r = absent
  · rw [hra, united_absent_right]
    exact (survivor hl).1
  obtain ⟨hln, hle⟩ := (survivor hl).2 hla
  obtain ⟨hrn, hre⟩ := (survivor hr).2 hra
  rw [united_of_ne_absent hla hra]
  split
  · next hswap =>
    refine settled_join hrn hln (fun ho => ?_) (fun hn => (of_allowed_eq_near hn).symm) ?_ g top
    · exact ⟨hre (of_allowed_eq_or ho), hle (of_allowed_eq_or ho)⟩
    · intro _
      simpa using (Bool.and_eq_true_iff.mp hswap).1
  · next hswap =>
    refine settled_join hln hrn (fun ho => ?_) of_allowed_eq_near ?_ g top
    · exact ⟨hle (of_allowed_eq_or ho), hre (of_allowed_eq_or ho)⟩
    · intro he
      simpa [he] using hswap

/-- **Normal form.** A repaired tree is absent or normal. -/
theorem repaired_settled (h : Built t ∨ t = absent) (top : Bool) :
    Settled top (t.repaired top) := by
  induction t generalizing top with
  | leaf l =>
    unfold repaired
    cases l with
    | term u =>
      rcases settled_cases top (term u) with h0 | ⟨h1, he⟩
      · exact .inl h0
      · rw [h1]
        exact .inr ⟨fun hg => he (.inl hg), fun ht => he (.inr ht)⟩
    | absent => exact .inl (by simp [settled, isExcluded])
    | foreign f => exact absurd h (by simp [Built])
  | join l r c g e ihl ihr =>
    obtain ⟨hl, hr, -⟩ := h.resolve_right (by simp)
    exact settled_united (ihl (.inl hl) false) (ihr hr false) c g top

/-- **Repair without faults.** -/
theorem repair_of_built (h : Built t ∨ t = absent) (top : Bool) :
    ∃ dropped, t.repair top = .ok ⟨t.repaired top, dropped⟩ := by
  induction t generalizing top with
  | leaf l =>
    rw [repair_leaf]
    exact Operand.settle_eq (h.symm.imp_right Built.readable) top
  | join l r c g e ihl ihr =>
    obtain ⟨hl, hr, -⟩ := h.resolve_right (by simp)
    obtain ⟨ls, hls⟩ := ihl (.inl hl) false
    obtain ⟨rs, hrs⟩ := ihr hr false
    have hlo := (repaired_settled (.inl hl) false).operand
    have hro := (repaired_settled hr false).operand
    obtain ⟨s, hs⟩ := ((hlo.kept c).united (hro.kept c) c g).settle_eq top
    refine ⟨ls ++ rs ++ s, ?_⟩
    rw [repair_join, hls, hrs]
    show (combine c g _ _ >>= _) = _
    rw [hlo.combine_eq hro]
    show (settle top _ >>= _) = _
    rw [hs]
    rfl

theorem normalize_of_built (h : Built t ∨ t = absent) (top : Bool) :
    t.normalize top = .ok (t.repaired top) := by
  obtain ⟨dropped, hd⟩ := repair_of_built h top
  unfold normalize
  rw [hd]
  rfl

/-! ## Terms -/

theorem terms_settled_sublist (top : Bool) (t : Tree) :
    (settled top t).terms.Sublist t.terms := by
  rcases settled_cases top t with h0 | ⟨h1, -⟩
  · rw [h0]
    exact List.nil_sublist _
  · rw [h1]

theorem terms_kept_sublist (c : Conjunction) (t : Tree) : (kept c t).terms.Sublist t.terms := by
  rcases kept_cases c t with h0 | ⟨h1, -⟩
  · rw [h0]
    exact List.nil_sublist _
  · rw [h1]

theorem terms_united_perm (c : Conjunction) (g : Bool) (l r : Tree) :
    (united c g l r).terms.Perm (l.terms ++ r.terms) := by
  by_cases hl : l = absent
  · rw [hl, united_absent_left]
    exact .refl _
  by_cases hr : r = absent
  · rw [hr, united_absent_right]
    exact .of_eq (List.append_nil _).symm
  rw [united_of_ne_absent hl hr]
  split
  · exact List.perm_append_comm
  · exact .refl _

theorem mem_terms_united {x : Term} :
    x ∈ (united c g l r).terms ↔ x ∈ l.terms ∨ x ∈ r.terms := by
  rw [(terms_united_perm c g l r).mem_iff, List.mem_append]

/-- Repair adds no term and changes none. -/
theorem terms_repaired_subperm (t : Tree) (top : Bool) :
    (t.repaired top).terms.Subperm t.terms := by
  induction t generalizing top with
  | leaf l => exact (terms_settled_sublist top _).subperm
  | join l r c g e ihl ihr =>
    have hl := (terms_kept_sublist c _).subperm.trans (ihl false)
    have hr := (terms_kept_sublist c _).subperm.trans (ihr false)
    exact (terms_settled_sublist top _).subperm.trans
      ((terms_united_perm c g _ _).subperm.trans (hl.append hr))

theorem mem_terms_repaired {x : Term} (h : x ∈ (t.repaired top).terms) : x ∈ t.terms :=
  (terms_repaired_subperm t top).subset h

end Tree

end FullText
