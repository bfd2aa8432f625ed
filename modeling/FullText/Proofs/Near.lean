import FullText.Proofs.Converted
import FullText.Proofs.Subtree

/-!
# What `NEAR` joins

The `NEAR` joins of a repaired tree are those joins of the tree that survive and whose repaired
operands are two literal terms (`isSubtree_repaired_near`), in their order unless only the left one
is excluded. So `NEAR` stands in front of a negation exactly when one of two such terms is excluded
(`near_excluded_iff`).
-/

namespace FullText

namespace Tree

open Query

variable {l r s t x y : Tree} {c : Conjunction} {g g' e top : Bool} {a b : Term}

/-! ## Joins that survive -/

/-- The subtree survives the repair of the tree: no join around it is dropped as excluded, nor the
operand of an `OR` around it. -/
def Survives (s : Tree) : Tree → Bool → Prop
  | .leaf l, top => (leaf l).repaired top ≠ absent ∧ s = .leaf l
  | .join l r c g e, top => (join l r c g e).repaired top ≠ absent ∧ (s = .join l r c g e ∨
    ((c = .or → (l.repaired false).isExcluded = false) ∧ Survives s l false) ∨
    ((c = .or → (r.repaired false).isExcluded = false) ∧ Survives s r false))

/-! ## The joins that stay `NEAR` -/

theorem isLiteralTerm_iff :
    t.isLiteralTerm = true ↔ ∃ a : Term, t = term a ∧ a.form = .literal := by
  cases t with
  | leaf l => cases l <;> simp [isLiteralTerm]
  | join => simp [isLiteralTerm]

/-- A join of two operands is `NEAR` only if it was and both are literal terms. -/
theorem of_near_eq_united (hl : l ≠ absent) (hr : r ≠ absent)
    (h : .join x y .near g e = united c g' l r) :
    c = .near ∧ g = g' ∧
      ∃ a b : Term, l = term a ∧ r = term b ∧ a.form = .literal ∧ b.form = .literal := by
  have hc : allowed l r c = .near ∧ g = g' := by
    rw [united_of_ne_absent hl hr] at h
    split at h <;> exact ⟨by simp_all, by simp_all⟩
  obtain ⟨hal, hbl⟩ := of_allowed_eq_near hc.1
  obtain ⟨a, rfl, ha⟩ := isLiteralTerm_iff.mp hal
  obtain ⟨b, rfl, hb⟩ := isLiteralTerm_iff.mp hbl
  refine ⟨?_, hc.2, a, b, rfl, rfl, ha, hb⟩
  cases c <;> simp_all [allowed]

/-- A `NEAR` of the tree, in parentheses or not, survives, and joins the literal terms `a` and `b`
once its operands are repaired. -/
def Nears (t : Tree) (top g : Bool) (a b : Term) : Prop :=
  ∃ l r e, Survives (.join l r .near g e) t top ∧ l.repaired false = term a ∧
    r.repaired false = term b ∧ a.form = .literal ∧ b.form = .literal

theorem nears_join : Nears (.join l r c g' e) top g a b ↔
    (join l r c g' e).repaired top ≠ absent ∧
      ((c = .near ∧ g = g' ∧ l.repaired false = term a ∧ r.repaired false = term b ∧
        a.form = .literal ∧ b.form = .literal) ∨
      ((c = .or → (l.repaired false).isExcluded = false) ∧ Nears l false g a b) ∨
      ((c = .or → (r.repaired false).isExcluded = false) ∧ Nears r false g a b)) := by
  constructor
  · rintro ⟨l', r', e', ⟨hne, heq | ⟨ho, hs⟩ | ⟨ho, hs⟩⟩, hn⟩
    · obtain ⟨rfl, rfl, rfl, rfl, rfl⟩ := Tree.join.inj heq
      exact ⟨hne, .inl ⟨rfl, rfl, hn⟩⟩
    · exact ⟨hne, .inr (.inl ⟨ho, l', r', e', hs, hn⟩)⟩
    · exact ⟨hne, .inr (.inr ⟨ho, l', r', e', hs, hn⟩)⟩
  · rintro ⟨hne, ⟨rfl, rfl, hn⟩ | ⟨ho, l', r', e', hs, hn⟩ | ⟨ho, l', r', e', hs, hn⟩⟩
    · exact ⟨l, r, e, ⟨hne, .inl rfl⟩, hn⟩
    · exact ⟨l', r', e', ⟨hne, .inr (.inl ⟨ho, hs⟩)⟩, hn⟩
    · exact ⟨l', r', e', ⟨hne, .inr (.inr ⟨ho, hs⟩)⟩, hn⟩

/-- The `NEAR` joins of a repaired tree. -/
theorem isSubtree_repaired_near : IsSubtree (.join x y .near g e) (t.repaired top) ↔
    ∃ a b, Nears t top g a b ∧ .join x y .near g e = united .near g (term a) (term b) := by
  induction t generalizing top with
  | leaf l =>
    constructor
    · intro h
      exact absurd ((isSubtree_settled (by simp)).mp h).2 (by simp [IsSubtree])
    · rintro ⟨a, b, ⟨l, r, e', ⟨-, hs⟩, -⟩, -⟩
      exact absurd hs (by simp)
  | join l r c g' e' ihl ihr =>
    have hne : Tree.join x y .near g e ≠ absent := by simp
    show IsSubtree _ (settled top (united c g' _ _)) ↔ _
    rw [isSubtree_settled hne, isSubtree_united hne, isSubtree_kept hne, isSubtree_kept hne,
      ihl, ihr]
    constructor
    · rintro ⟨ht, ⟨hl, hr, hp⟩ | ⟨ho, a, b, hn, hp⟩ | ⟨ho, a, b, hn, hp⟩⟩
      · obtain ⟨rfl, rfl, a, b, ha, hb, hf⟩ := of_near_eq_united hl hr hp
        rw [ha, hb] at hp
        exact ⟨a, b, nears_join.mpr ⟨ht, .inl ⟨rfl, rfl, by simpa [kept] using ha,
          by simpa [kept] using hb, hf⟩⟩, hp⟩
      · exact ⟨a, b, nears_join.mpr ⟨ht, .inr (.inl ⟨ho, hn⟩)⟩, hp⟩
      · exact ⟨a, b, nears_join.mpr ⟨ht, .inr (.inr ⟨ho, hn⟩)⟩, hp⟩
    · rintro ⟨a, b, hn, hp⟩
      obtain ⟨ht, ⟨rfl, rfl, ha, hb, -⟩ | ⟨ho, hn⟩ | ⟨ho, hn⟩⟩ := nears_join.mp hn
      · refine ⟨ht, .inl ?_⟩
        rw [ha, hb]
        exact ⟨by simp [kept], by simp [kept], hp⟩
      · exact ⟨ht, .inr (.inl ⟨ho, a, b, hn, hp⟩)⟩
      · exact ⟨ht, .inr (.inr ⟨ho, a, b, hn, hp⟩)⟩

/-! ## `NEAR` among the tokens -/

theorem append_eq_append_cons {α : Type} {xs ys front rest : List α} {z : α}
    (h : xs ++ ys = front ++ z :: rest) :
    (∃ back, xs = front ++ z :: back ∧ rest = back ++ ys) ∨
      ∃ start, ys = start ++ z :: rest ∧ front = xs ++ start := by
  rcases List.append_eq_append_iff.mp h with ⟨start, hf, hy⟩ | ⟨back, hx, hz⟩
  · exact .inr ⟨start, hy, hf⟩
  · cases back with
    | nil => exact .inr ⟨[], hz.symm, by simpa using hx.symm⟩
    | cons w back =>
      obtain ⟨rfl, rfl⟩ := List.cons.inj hz
      exact .inl ⟨back, hx, rfl⟩

/-- Each conjunction stands between the operands of a join. -/
theorem exists_join_of_ofTree {front rest : List Token}
    (h : ofTree t = front ++ .conjunction c :: rest) :
    ∃ l r g e start back, IsSubtree (.join l r c g e) t ∧ front = start ++ ofTree l ∧
      rest = ofTree r ++ back := by
  induction t generalizing front rest with
  | leaf l =>
    have hmem : Token.conjunction c ∈ ofTree (.leaf l) := by simp [h]
    cases l with
    | term u =>
      rw [show ofTree (.leaf (.term u)) = ofTerm u from rfl] at hmem
      unfold ofTerm at hmem
      split at hmem <;> simp at hmem
    | _ => simp [ofTree] at hmem
  | join l r c' g e ihl ihr =>
    -- the conjunction stands in the left operand, in the right one, or is that of the join
    have hlevel {front rest : List Token}
        (h : ofTree l ++ .conjunction c' :: ofTree r = front ++ .conjunction c :: rest) :
        ∃ l' r' g' e' start back, IsSubtree (.join l' r' c g' e') (.join l r c' g e) ∧
          front = start ++ ofTree l' ∧ rest = ofTree r' ++ back := by
      rcases append_eq_append_cons h with ⟨back, hl, rfl⟩ | ⟨start, hr, rfl⟩
      · obtain ⟨l', r', g', e', start, back', hs, hf, rfl⟩ := ihl hl
        exact ⟨l', r', g', e', start, _, .inr (.inl hs), hf, List.append_assoc _ _ _⟩
      · cases start with
        | nil =>
          obtain ⟨hc, rfl⟩ := List.cons.inj hr
          obtain rfl := Token.conjunction.inj hc
          exact ⟨l, r, g, e, [], [], .inl rfl, by simp, by simp⟩
        | cons z start =>
          obtain ⟨rfl, hbehind⟩ := List.cons.inj hr
          obtain ⟨l', r', g', e', start', back, hs, rfl, hb⟩ := ihr hbehind
          exact ⟨l', r', g', e', ofTree l ++ .conjunction c' :: start', back, .inr (.inr hs),
            by simp, hb⟩
    cases g with
    | false => exact hlevel h
    | true =>
      have hgroup : ofTree (.join l r c' true e) =
          [.opening] ++ ((ofTree l ++ .conjunction c' :: ofTree r) ++ [.closing]) := by
        simp [ofTree]
      rw [hgroup] at h
      rcases append_eq_append_cons h with ⟨back, ho, -⟩ | ⟨start, hinside, rfl⟩
      · exact absurd (congrArg (Token.conjunction c ∈ ·) ho) (by simp)
      rcases append_eq_append_cons hinside with ⟨back, hbody, rfl⟩ | ⟨start', hc, -⟩
      · obtain ⟨l', r', g', e', start', back', hs, rfl, rfl⟩ := hlevel hbody
        exact ⟨l', r', g', e', .opening :: start', back' ++ [.closing], hs, by simp, by simp⟩
      · exact absurd (congrArg (Token.conjunction c ∈ ·) hc) (by simp)

/-- The tokens of a subtree stand together. -/
theorem IsSubtree.isInfix (h : IsSubtree s t) : ofTree s <:+: ofTree t := by
  induction t with
  | leaf l =>
    obtain rfl : s = .leaf l := h
    exact List.infix_refl _
  | join l r c g e ihl ihr =>
    have hl : ofTree l <:+: ofTree (.join l r c g e) := by
      cases g with
      | true => exact ⟨[.opening], .conjunction c :: ofTree r ++ [.closing], by simp [ofTree]⟩
      | false => exact ⟨[], .conjunction c :: ofTree r, by simp [ofTree]⟩
    have hr : ofTree r <:+: ofTree (.join l r c g e) := by
      cases g with
      | true => exact ⟨.opening :: ofTree l ++ [.conjunction c], [.closing], by simp [ofTree]⟩
      | false => exact ⟨ofTree l ++ [.conjunction c], [], by simp [ofTree]⟩
    rcases h with rfl | h | h
    · exact List.infix_refl _
    · exact (ihl h).trans hl
    · exact (ihr h).trans hr

/-- A `NEAR` join of a settled tree joins literal terms, and the right one is excluded if the left
one is. -/
theorem Settled.of_near (h : Settled top t) (hs : IsSubtree (.join x y .near g e) t) :
    ∃ a b : Term, x = term a ∧ y = term b ∧ a.form = .literal ∧ b.form = .literal ∧
      (a.exclude = true → b.exclude = true) := by
  rcases h with rfl | ⟨hn, -⟩
  · exact absurd hs (by simp [IsSubtree])
  obtain ⟨-, -, hsound⟩ := hn.of_isSubtree hs
  obtain ⟨hx, hy⟩ := hsound.near rfl
  obtain ⟨a, rfl, ha⟩ := isLiteralTerm_iff.mp hx
  obtain ⟨b, rfl, hb⟩ := isLiteralTerm_iff.mp hy
  exact ⟨a, b, rfl, rfl, ha, hb, hsound.order⟩

/-- `NEAR` stands in front of a negation where it joins an excluded term. -/
theorem Settled.near_negation_iff (h : Settled top t) :
    [.conjunction .near, .negation] <:+: ofTree t ↔
      ∃ x y g e, IsSubtree (.join x y .near g e) t ∧
        (x.isExcluded = true ∨ y.isExcluded = true) := by
  constructor
  · rintro ⟨front, rest, ht⟩
    have hfront : ofTree t = front ++ .conjunction .near :: (.negation :: rest) := by
      simpa using ht.symm
    obtain ⟨l, r, g, e, start, back, hs, -, hr⟩ := exists_join_of_ofTree hfront
    obtain ⟨a, b, rfl, rfl, -⟩ := h.of_near hs
    refine ⟨_, _, g, e, hs, .inr ?_⟩
    show b.exclude = true
    rw [show ofTree (term b) = ofTerm b from rfl] at hr
    unfold ofTerm at hr
    split at hr
    · assumption
    · exact absurd hr (by simp)
  · rintro ⟨x, y, g, e, hs, he⟩
    obtain ⟨a, b, rfl, rfl, -, -, hab⟩ := h.of_near hs
    have hb : b.exclude = true := he.elim hab id
    refine List.IsInfix.trans ?_ hs.isInfix
    cases g with
    | true =>
      exact ⟨.opening :: ofTerm a, [.operand b.form b.word.toList, .closing],
        by simp [ofTree, ofTerm, hb]⟩
    | false =>
      exact ⟨ofTerm a, [.operand b.form b.word.toList], by simp [ofTree, ofTerm, hb]⟩

/-- A surviving `NEAR` of the tree joins two literal terms once its operands are repaired, and one
of them is excluded. -/
def NearsExcluded (t : Tree) (top : Bool) : Prop :=
  ∃ g a b, Nears t top g a b ∧ (a.exclude = true ∨ b.exclude = true)

theorem nearsExcluded_iff : NearsExcluded t top ↔ ∃ x y g e,
    IsSubtree (.join x y .near g e) (t.repaired top) ∧
      (x.isExcluded = true ∨ y.isExcluded = true) := by
  constructor
  · rintro ⟨g, a, b, hn, he⟩
    have hlit : a.form = .literal ∧ b.form = .literal := by
      obtain ⟨-, -, -, -, -, -, ha, hb⟩ := hn
      exact ⟨ha, hb⟩
    have hu : united .near g (term a) (term b) =
        if a.exclude && !b.exclude then .join (term b) (term a) .near g (b.exclude && a.exclude)
        else .join (term a) (term b) .near g (a.exclude && b.exclude) := by
      rw [united_of_ne_absent (by simp) (by simp)]
      simp [isExcluded, allowed, isLiteralTerm, hlit]
    split at hu
    · exact ⟨_, _, g, _, isSubtree_repaired_near.mpr ⟨a, b, hn, hu.symm⟩, he.symm⟩
    · exact ⟨_, _, g, _, isSubtree_repaired_near.mpr ⟨a, b, hn, hu.symm⟩, he⟩
  · rintro ⟨x, y, g, e, hs, he⟩
    obtain ⟨a, b, hn, hu⟩ := isSubtree_repaired_near.mp hs
    refine ⟨g, a, b, hn, ?_⟩
    rw [united_of_ne_absent (by simp) (by simp)] at hu
    split at hu
    · obtain ⟨rfl, rfl, -⟩ := Tree.join.inj hu
      exact he.symm
    · obtain ⟨rfl, rfl, -⟩ := Tree.join.inj hu
      exact he

/-- **`NEAR`.** In a repaired tree, and so in the text of each conversion, `NEAR` joins two literal
terms, and the left one is negated only if the right one is. One of them is negated exactly when a
surviving `NEAR` of the tree that is repaired joins an excluded literal term. -/
theorem near_excluded_iff (t : Tree) :
    (Built t → ∀ top, ∃ u, t.normalize top = .ok u ∧
      (∀ x y g e, IsSubtree (.join x y .near g e) u →
        ∃ a b : Term, x = term a ∧ y = term b ∧ a.form = .literal ∧ b.form = .literal ∧
          (a.exclude = true → b.exclude = true)) ∧
      ((∃ x y g e, IsSubtree (.join x y .near g e) u ∧
        (x.isExcluded = true ∨ y.isExcluded = true)) ↔ NearsExcluded t top)) ∧
    ∀ words query, t = Search.buildText (query.getD "") .and words →
      Search.parse (query.getD "") .and words = .ok t ∧
      ∃ c, Conversion.ofQuery words query = .ok c ∧ c.text.toList = write (ofTree c.tree) ∧
        (∀ front rest, ofTree c.tree = front ++ .conjunction .near :: rest →
          ∃ a b start back, front = start ++ ofTerm a ∧ rest = ofTerm b ++ back ∧
            a.form = .literal ∧ b.form = .literal ∧ (a.exclude = true → b.exclude = true)) ∧
        ([.conjunction .near, .negation] <:+: ofTree c.tree ↔ NearsExcluded t true) := by
  constructor
  · intro h top
    exact ⟨_, normalize_of_built (.inl h) top, fun x y g e hs =>
      (repaired_settled (.inl h) top).of_near hs, nearsExcluded_iff.symm⟩
  · rintro words query rfl
    have hsettled := Conversion.treeOf_settled words query
    refine ⟨Conversion.parse_query words query, _, Conversion.ofQuery_eq words query,
      String.toList_ofList, fun front rest h => ?_, ?_⟩
    · obtain ⟨l, r, g, e, start, back, hs, hf, hr⟩ := exists_join_of_ofTree h
      obtain ⟨a, b, rfl, rfl, hab⟩ := hsettled.of_near hs
      exact ⟨a, b, start, back, hf, hr, hab⟩
    · rw [nearsExcluded_iff]
      exact hsettled.near_negation_iff

/-- `NOT "a" NEAR "b"`: the operands change places, and `NEAR` stays. -/
theorem swapped_near_excluded :
    Built (.join (term ⟨"a", .literal, true, false⟩) (term ⟨"b", .literal, false, false⟩)
      .near false false) ∧
    ∃ u, normalize (.join (term ⟨"a", .literal, true, false⟩) (term ⟨"b", .literal, false, false⟩)
      .near false false) true = .ok u ∧
      ∃ x y g e, IsSubtree (.join x y .near g e) u ∧
        (x.isExcluded = true ∨ y.isExcluded = true) := by
  have h : Built (.join (term ⟨"a", .literal, true, false⟩) (term ⟨"b", .literal, false, false⟩)
      .near false false) := ⟨trivial, .inl trivial, rfl⟩
  obtain ⟨u, hu, -, hiff⟩ := (near_excluded_iff _).1 h true
  have hne : repaired (.join (term ⟨"a", .literal, true, false⟩)
      (term ⟨"b", .literal, false, false⟩) .near false false) true ≠ absent := by
    intro h0
    exact absurd h0 (by simp [repaired, settled, united, kept, isExcluded, isGrouped])
  have hnears : Nears (.join (term ⟨"a", .literal, true, false⟩)
      (term ⟨"b", .literal, false, false⟩) .near false false) true false
      ⟨"a", .literal, true, false⟩ ⟨"b", .literal, false, false⟩ :=
    ⟨_, _, _, ⟨hne, .inl rfl⟩, rfl, rfl, rfl, rfl⟩
  exact ⟨h, u, hu, hiff.mpr ⟨false, _, _, hnears, .inl rfl⟩⟩

/-- `NEAR` is kept in front of a negation. -/
theorem near_kept_before_negation :
    ∃ c, Conversion.ofQuery .empty (some "<\"a\" -\"b\">") = .ok c ∧
      c.text = "\"a\" NEAR NOT \"b\"" ∧
      [.conjunction .near, .negation] <:+: ofTree c.tree := by
  exact ⟨_, Conversion.ofQuery_eq _ _, by decide +kernel, [.operand .literal ['a']],
    [.operand .literal ['b']], by decide +kernel⟩

end Tree

end FullText
