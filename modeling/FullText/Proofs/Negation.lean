import Mathlib.Data.List.Chain
import FullText.Proofs.Converted

/-!
# Where negations stand

In the text of a repaired tree a negation stands only behind `AND` or `NEAR`, and the parentheses
are balanced (`repaired_negates_legally`). The invariant is `Normal`: what is excluded on the left
of a join is excluded on its right too, so the first term of a tree that is not excluded is not
negated, however deep it is.
-/

namespace FullText

namespace Query

variable {t a b : Token} {ts us : List Token}

/-- Whether the second token can stand directly behind the first one: a negation stands only behind
`AND` and `NEAR`. -/
def Follows (a b : Token) : Prop :=
  b = .negation → a = .conjunction .and ∨ a = .conjunction .near

theorem follows_of_ne_negation (h : b ≠ .negation) (a : Token) : Follows a b :=
  fun hb => absurd hb h

/-- No negation stands at the start, or directly behind a token other than `AND` and `NEAR`. -/
structure NegatesLegally (ts : List Token) : Prop where
  start : ts.head? ≠ some .negation
  behind : ∀ front t rest, ts = front ++ t :: .negation :: rest →
    t = .conjunction .and ∨ t = .conjunction .near

/-- Behind an opening parenthesis, tokens that follow one another negate legally. -/
theorem negatesLegally_of_isChain (h : List.IsChain Follows (.opening :: ts)) :
    NegatesLegally ts := by
  constructor
  · intro hts
    obtain ⟨rest, rfl⟩ := List.head?_eq_some_iff.mp hts
    rcases (List.isChain_cons_cons.mp h).1 rfl with h | h <;> exact absurd h (by simp)
  · intro front t rest hts
    exact List.isChain_iff_forall_rel_of_append_cons_cons.mp h.tail hts rfl

/-! ## Balanced parentheses -/

/-- No prefix closes more parentheses than it opens, and all that are opened are closed. -/
structure Balanced (ts : List Token) : Prop where
  prefixes : ∀ n, (ts.take n).count .closing ≤ (ts.take n).count .opening
  whole : ts.count .closing = ts.count .opening

theorem balanced_of_notMem (ho : Token.opening ∉ ts) (hc : Token.closing ∉ ts) : Balanced ts := by
  have hno (t : Token) (h : t ∉ ts) (n : Nat) : (ts.take n).count t = 0 :=
    List.count_eq_zero.mpr fun hm => h (List.mem_of_mem_take hm)
  refine ⟨fun n => ?_, ?_⟩
  · rw [hno _ hc n]
    exact Nat.zero_le _
  · rw [List.count_eq_zero.mpr hc, List.count_eq_zero.mpr ho]

theorem Balanced.append (ht : Balanced ts) (hu : Balanced us) : Balanced (ts ++ us) := by
  refine ⟨fun n => ?_, ?_⟩
  · rw [List.take_append, List.count_append, List.count_append]
    exact Nat.add_le_add (ht.prefixes n) (hu.prefixes _)
  · rw [List.count_append, List.count_append, ht.whole, hu.whole]

theorem Balanced.enclose (h : Balanced ts) : Balanced (.opening :: ts ++ [.closing]) := by
  refine ⟨fun n => ?_, ?_⟩
  · cases n with
    | zero => simp
    | succ n =>
      have hts := h.prefixes n
      have hone : (([.closing] : List Token).take (n - ts.length)).count .closing ≤ 1 :=
        List.count_le_length.trans (List.length_take_le' _ _)
      rw [List.cons_append, List.take_succ_cons, List.take_append]
      simp only [List.count_cons, List.count_append]
      simp
      omega
  · have := h.whole
    simp [List.count_append]
    omega

theorem balanced_ofTree (t : Tree) : Balanced (ofTree t) := by
  induction t with
  | leaf l =>
    cases l with
    | term u =>
      refine balanced_of_notMem ?_ ?_ <;>
      · show _ ∉ ofTerm u
        unfold ofTerm
        split <;> simp
    | _ => exact balanced_of_notMem (by simp [ofTree]) (by simp [ofTree])
  | join l r c g e ihl ihr =>
    have hc : Balanced [.conjunction c] := balanced_of_notMem (by simp) (by simp)
    have hlr := ihl.append (hc.append ihr)
    cases g with
    | true => simpa [ofTree] using hlr.enclose
    | false => simpa [ofTree] using hlr

end Query

namespace Tree

open Query

variable {t : Tree}

/-- Behind a token that a negation may follow if the tree is excluded, the tokens of a normal tree
follow one another. -/
theorem Normal.isChain_ofTree (h : Normal t) {p : Token}
    (hp : t.isExcluded = true → p = .conjunction .and ∨ p = .conjunction .near) :
    List.IsChain Follows (p :: ofTree t) := by
  induction t generalizing p with
  | leaf l =>
    cases l with
    | term u =>
      show List.IsChain Follows (p :: ofTerm u)
      unfold ofTerm
      split
      · next he =>
        have hn : Follows p .negation := fun _ => hp he
        have ho : Follows .negation (.operand u.form u.word.toList) :=
          follows_of_ne_negation (by simp) _
        exact .cons_cons hn (.cons_cons ho (.singleton _))
      · exact .cons_cons (follows_of_ne_negation (by simp) _) (.singleton _)
    | _ => exact h.elim
  | join l r c g e ihl ihr =>
    obtain ⟨hl, hr, hs⟩ := h
    -- the right operand is excluded only behind `AND` and `NEAR`
    have hright : List.IsChain Follows (.conjunction c :: ofTree r) := ihr hr fun he => by
      cases c with
      | and => exact .inl rfl
      | near => exact .inr rfl
      | or => exact absurd he (by simp [(hs.or rfl).2])
    have hboth {q : Token} (hleft : List.IsChain Follows (q :: ofTree l)) :
        List.IsChain Follows (q :: (ofTree l ++ .conjunction c :: ofTree r)) := by
      rw [← List.cons_append]
      refine List.isChain_append.mpr ⟨hleft, hright, fun x _ y hy => ?_⟩
      obtain rfl : Token.conjunction c = y := by simpa using hy
      exact follows_of_ne_negation (by simp) x
    cases g with
    | true =>
      have hnot : l.isExcluded = true → False := fun he => by
        have := hs.exclude.symm.trans (hs.group rfl)
        rw [he, hs.order he] at this
        exact absurd this (by simp)
      have hopen := hboth (ihl hl (p := .opening) fun he => (hnot he).elim)
      have hclose : List.IsChain Follows
          (.opening :: (ofTree l ++ .conjunction c :: ofTree r) ++ [.closing]) :=
        List.isChain_append.mpr ⟨hopen, .singleton _, fun x _ y hy => by
          obtain rfl : Token.closing = y := by simpa using hy
          exact follows_of_ne_negation (by simp) x⟩
      simpa [ofTree] using List.IsChain.cons_cons (follows_of_ne_negation (by simp) p) hclose
    | false =>
      have hleft := ihl hl fun he => hp (by rw [isExcluded, hs.exclude, he, hs.order he]; rfl)
      simpa [ofTree] using hboth hleft

/-- A normal tree that is not excluded does not start with a negation. -/
theorem Settled.negatesLegally (h : Settled true t) : NegatesLegally (ofTree t) := by
  rcases h with rfl | ⟨hn, he⟩
  · exact ⟨by simp [ofTree], fun front t rest h => by simp [ofTree] at h⟩
  · exact negatesLegally_of_isChain (hn.isChain_ofTree fun hex => absurd hex (by simp [he rfl]))

theorem Settled.render_eq {top : Bool} (h : Settled top t) :
    t.render = .ok (String.ofList (write (ofTree t))) :=
  render_of_whole h.whole

/-- **Negations.** The text of a repaired tree, and so of each conversion, negates legally and has
balanced parentheses. -/
theorem repaired_negates_legally :
    (∀ t : Tree, t.Built → ∃ r text, t.normalize true = .ok r ∧ r.render = .ok text ∧
      text.toList = write (ofTree r) ∧ NegatesLegally (ofTree r) ∧ Balanced (ofTree r)) ∧
    ∀ words query, ∃ c, Conversion.ofQuery words query = .ok c ∧
      c.text.toList = write (ofTree c.tree) ∧ NegatesLegally (ofTree c.tree) ∧
      Balanced (ofTree c.tree) := by
  constructor
  · intro t h
    have hs := repaired_settled (.inl h) true
    exact ⟨_, _, normalize_of_built (.inl h) true, hs.render_eq, String.toList_ofList,
      hs.negatesLegally, balanced_ofTree _⟩
  · intro words query
    have hs := Conversion.treeOf_settled words query
    exact ⟨_, Conversion.ofQuery_eq words query, String.toList_ofList, hs.negatesLegally,
      balanced_ofTree _⟩

/-- `NOT a` in front of the group of `NOT b` and `c`: both levels change their operands. -/
theorem nested_group_negates_legally :
    Built (.join (term ⟨"a", .inflectional, true, false⟩)
      (.join (term ⟨"b", .inflectional, true, false⟩) (term ⟨"c", .inflectional, false, false⟩)
        .and true false) .and false false) ∧
    ∃ r text, normalize (.join (term ⟨"a", .inflectional, true, false⟩)
      (.join (term ⟨"b", .inflectional, true, false⟩) (term ⟨"c", .inflectional, false, false⟩)
        .and true false) .and false false) true = .ok r ∧ r.render = .ok text ∧
      text.toList = write (ofTree r) ∧ NegatesLegally (ofTree r) ∧ Balanced (ofTree r) := by
  have h : Built (.join (term ⟨"a", .inflectional, true, false⟩)
      (.join (term ⟨"b", .inflectional, true, false⟩) (term ⟨"c", .inflectional, false, false⟩)
        .and true false) .and false false) :=
    ⟨trivial, .inl ⟨trivial, .inl trivial, rfl⟩, rfl⟩
  exact ⟨h, repaired_negates_legally.1 _ h⟩

end Tree

end FullText
