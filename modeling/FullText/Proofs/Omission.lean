import FullText.Proofs.Decoding
import FullText.Proofs.Positives

/-!
# What stop words leave out

The tree that is read with stop words is, apart from parentheses, the tree that is read without
them, less the terms that are stop words (`bare_buildText`): a join that loses an operand is the
other one. So a modifier in front of a stop word says nothing about what comes behind it, and each
other term and each other join stays as it was. The same terms are missing among the wanted operands
of a query (`only_stop_words_left_out`).
-/

namespace FullText

/-- What a term says, apart from its parentheses. -/
def Term.reading (u : Term) : String × TermForm × Bool := (u.word, u.form, u.exclude)

namespace Tree

variable {l r t root node : Tree} {words : StopWords}

/-- What the terms of a tree say, in their order. -/
def readings (t : Tree) : List (String × TermForm × Bool) := t.terms.map Term.reading

/-- The tree without its parentheses. -/
def bare : Tree → Tree
  | term u => term { u with grouped := false }
  | .leaf l => .leaf l
  | .join l r c _ e => .join l.bare r.bare c false e

/-- The tree without its parentheses and without the terms that are stop words. Where one operand of
a join is gone, the other one stands in its place. -/
def without (words : StopWords) : Tree → Tree
  | term u => if words.contains u.word then absent else term { u with grouped := false }
  | .leaf l => .leaf l
  | .join l r c _ _ => Search.attach (l.without words) (r.without words) c

@[simp] theorem bare_eq_absent_iff : t.bare = absent ↔ t = absent := by
  cases t with
  | leaf l => cases l <;> simp [bare]
  | join => simp [bare]

@[simp] theorem isExcluded_bare (t : Tree) : t.bare.isExcluded = t.isExcluded := by
  cases t with
  | leaf l => cases l <;> rfl
  | join => rfl

@[simp] theorem bare_withGroup (t : Tree) (g : Bool) : (t.withGroup g).bare = t.bare := by
  cases t with
  | leaf l => cases l <;> rfl
  | join => rfl

@[simp] theorem without_withGroup (t : Tree) (g : Bool) :
    (t.withGroup g).without words = t.without words := by
  cases t with
  | leaf l => cases l <;> rfl
  | join => rfl

theorem readings_bare (t : Tree) : t.bare.readings = t.readings := by
  induction t with
  | leaf l => cases l <;> rfl
  | join l r c g e ihl ihr =>
    simp only [readings, bare, terms, List.map_append] at ihl ihr ⊢
    rw [ihl, ihr]

theorem readings_attach (root node : Tree) (c : Conjunction) :
    (Search.attach root node c).readings = root.readings ++ node.readings := by
  unfold readings
  rw [Search.terms_attach, List.map_append]

theorem readings_without (words : StopWords) (t : Tree) :
    (t.without words).readings = t.readings.filter fun u => !words.contains u.1 := by
  induction t with
  | leaf l =>
    cases l with
    | term u =>
      unfold without
      split
      · next h => simp [readings, terms, Term.reading, h]
      · next h => simp [readings, terms, Term.reading, h]
    | _ => rfl
  | join l r c g e ihl ihr =>
    rw [without, readings_attach, ihl, ihr, ← List.filter_append]
    simp [readings, terms]

theorem bare_attach (root node : Tree) (c : Conjunction) :
    (Search.attach root node c).bare = Search.attach root.bare node.bare c := by
  by_cases hn : node = absent
  · rw [hn]
    rfl
  by_cases hr : root = absent
  · rw [hr, Search.attach_absent_left]
    exact (Search.attach_absent_left _ c).symm
  · rw [Search.attach_of_ne_absent hr hn, Search.attach_of_ne_absent (by simpa) (by simpa), bare,
      isExcluded_bare, isExcluded_bare]

theorem without_attach (words : StopWords) (root node : Tree) (c : Conjunction) :
    (Search.attach root node c).without words =
      Search.attach (root.without words) (node.without words) c := by
  by_cases hn : node = absent
  · rw [hn]
    rfl
  by_cases hr : root = absent
  · rw [hr, Search.attach_absent_left]
    exact (Search.attach_absent_left _ c).symm
  · rw [Search.attach_of_ne_absent hr hn, without]

end Tree

namespace Search

variable {words : StopWords} {default : Conjunction} {m : Modifiers} {root root₀ : Tree}
  {ts : List Token}

theorem contains_empty (w : String) : StopWords.empty.contains w = false := rfl

theorem bare_termTree (words : StopWords) (cs : List Char) (m : Modifiers) :
    (termTree words cs m).bare = (termTree .empty cs m).without words := by
  unfold termTree
  by_cases hcs : cs = []
  · rw [if_pos (.inl hcs), if_pos (.inl hcs)]
    rfl
  · simp only [hcs, contains_empty, false_or, Bool.false_eq_true, if_false]
    show _ = if _ then _ else _
    split <;> rfl

/-- The tokens build the same tree with stop words and without, less the stop words. -/
theorem bare_build (words : StopWords) (default : Conjunction) (m : Modifiers) (root root₀ : Tree)
    (ts : List Token) (hroot : root.bare = root₀.without words) :
    (build words default m root ts).bare = (build .empty default m root₀ ts).without words := by
  have hattach {root root₀ node node₀ : Tree} (c : Conjunction)
      (hr : root.bare = root₀.without words) (hn : node.bare = node₀.without words) :
      (attach root node c).bare = (attach root₀ node₀ c).without words := by
    rw [Tree.bare_attach, Tree.without_attach, hr, hn]
  revert root₀
  fun_induction build words default m root ts with
  | case1 =>
    intro root₀ hroot
    rwa [build]
  | case2 default m root cs starred ts k hk ih =>
    intro root₀ hroot
    rw [build, hk]
    exact ih root₀ hroot
  | case3 default m root cs starred ts hk ih =>
    intro root₀ hroot
    rw [build, hk]
    exact ih _ (hattach _ hroot (bare_termTree words cs _))
  | case4 default m root cs ts ih =>
    intro root₀ hroot
    rw [build]
    exact ih _ (hattach _ hroot (bare_termTree words _ _))
  | case5 default m root c ts hb ih =>
    intro root₀ hroot
    rw [build, hb]
    exact ih root₀ hroot
  | case6 default m root c ts b hb inside inner node ihnode _ ih =>
    intro root₀ hroot
    rw [build, hb]
    refine ih _ (hattach _ hroot ?_)
    rw [Tree.bare_withGroup, Tree.without_withGroup]
    exact ihnode .absent rfl

theorem bare_buildText (text : String) (default : Conjunction) (words : StopWords) :
    (buildText text default words).bare = (buildText text default .empty).without words :=
  bare_build words default _ .absent .absent _ rfl

theorem readings_buildText (text : String) (default : Conjunction) (words : StopWords) :
    (buildText text default words).readings =
      (buildText text default .empty).readings.filter fun u => !words.contains u.1 := by
  rw [← Tree.readings_bare, bare_buildText, Tree.readings_without]

end Search

namespace Query

/-- The operands of a query that no negation stands in front of, in their order. -/
def wanted : List Token → List (TermForm × List Char)
  | .negation :: .operand _ _ :: ts => wanted ts
  | .operand form word :: ts => (form, word) :: wanted ts
  | _ :: ts => wanted ts
  | [] => []

/-- The form and the word of the terms that are not excluded. -/
def wantedReadings (t : Tree) : List (TermForm × List Char) :=
  (t.readings.filter fun u => !u.2.2).map fun u => (u.2.1, u.1.toList)

theorem wantedReadings_join (l r : Tree) (c : Conjunction) (g e : Bool) :
    wantedReadings (.join l r c g e) = wantedReadings l ++ wantedReadings r := by
  simp [wantedReadings, Tree.readings, Tree.terms]

theorem wanted_conjunction (c : Conjunction) (ts : List Token) :
    wanted (.conjunction c :: ts) = wanted ts := rfl

theorem wanted_opening (ts : List Token) : wanted (.opening :: ts) = wanted ts := rfl

theorem wanted_closing (ts : List Token) : wanted (.closing :: ts) = wanted ts := rfl

theorem wanted_ofTree_append (t : Tree) (ts : List Token) :
    wanted (ofTree t ++ ts) = wantedReadings t ++ wanted ts := by
  induction t generalizing ts with
  | leaf l =>
    cases l with
    | term u =>
      show wanted (ofTerm u ++ ts) = _
      unfold ofTerm
      cases he : u.exclude <;>
        simp [wanted, wantedReadings, Tree.readings, Tree.terms, Term.reading, he]
    | _ => rfl
  | join l r c g e ihl ihr =>
    rw [wantedReadings_join, List.append_assoc]
    cases g with
    | false =>
      have htokens : ofTree (.join l r c false e) ++ ts =
          ofTree l ++ .conjunction c :: (ofTree r ++ ts) := by simp [ofTree]
      rw [htokens, ihl, wanted_conjunction, ihr]
    | true =>
      have htokens : ofTree (.join l r c true e) ++ ts =
          .opening :: (ofTree l ++ .conjunction c :: (ofTree r ++ .closing :: ts)) := by
        simp [ofTree]
      rw [htokens, wanted_opening, ihl, wanted_conjunction, ihr, wanted_closing]

theorem wantedReadings_eq (t : Tree) :
    wantedReadings t = t.positives.map fun u => (u.form, u.word.toList) := by
  simp [wantedReadings, Tree.readings, Tree.positives, List.filter_map, Function.comp_def,
    Term.reading]

theorem wantedReadings_repaired {t : Tree} (h : t.Built ∨ t = .absent) (top : Bool) :
    wantedReadings (t.repaired top) = wantedReadings t := by
  rw [wantedReadings_eq, wantedReadings_eq, Tree.positives_repaired h]

theorem wantedReadings_buildText (text : String) (default : Conjunction) (words : StopWords) :
    wantedReadings (Search.buildText text default words) =
      (wantedReadings (Search.buildText text default .empty)).filter
        fun u => !words.contains (String.ofList u.2) := by
  simp only [wantedReadings, Search.readings_buildText text default words, List.filter_filter,
    List.filter_map, Function.comp_def, String.ofList_toList, Bool.and_comm]

/-- The wanted operands in the text of a conversion are the wanted terms of the expression. -/
theorem wanted_read (words : StopWords) (query : Option String) :
    ∃ c ts, Conversion.ofQuery words query = .ok c ∧ read? c.text = some ts ∧
      wanted ts = wantedReadings (Search.buildText (query.getD "") .and words) := by
  refine ⟨_, _, Conversion.ofQuery_eq words query,
    read?_write fun t ht => Conversion.closed_of_mem_treeOf ht, ?_⟩
  have htokens := wanted_ofTree_append (Conversion.treeOf words query) []
  rw [List.append_nil, show wanted [] = [] from rfl, List.append_nil] at htokens
  rw [htokens]
  exact wantedReadings_repaired (Search.built_buildText _ _ _) true

end Query

/-- **Stop words.** The terms that are read with stop words are, in order, those that are read
without them, less the stop words, and so are the operands of a query that are not negated. Each
conjunction still joins what it joined, as far as anything is left on both its sides. -/
theorem only_stop_words_left_out (words : StopWords) :
    (∀ text default, ∃ t t₀, Search.parse text default words = .ok t ∧
      Search.parse text default .empty = .ok t₀ ∧
      t.readings = (t₀.readings.filter fun u => !words.contains u.1) ∧
      t.bare = t₀.without words) ∧
    ∀ query, ∃ c c₀ ts ts₀, Conversion.ofQuery words query = .ok c ∧
      Conversion.ofQuery .empty query = .ok c₀ ∧ Query.read? c.text = some ts ∧
      Query.read? c₀.text = some ts₀ ∧
      Query.wanted ts = (Query.wanted ts₀).filter fun u => !words.contains (String.ofList u.2) := by
  refine ⟨fun text default => ?_, fun query => ?_⟩
  · have hparse (words : StopWords) :
        Search.parse text default words = .ok (Search.buildText text default words) :=
      Search.parseFrom_between (.inr rfl) words default _ [] text.toList
    exact ⟨_, _, hparse words, hparse .empty, Search.readings_buildText text default words,
      Search.bare_buildText text default words⟩
  · obtain ⟨c, ts, hc, hread, hwanted⟩ := Query.wanted_read words query
    obtain ⟨c₀, ts₀, hc₀, hread₀, hwanted₀⟩ := Query.wanted_read .empty query
    refine ⟨c, c₀, ts, ts₀, hc, hc₀, hread, hread₀, ?_⟩
    rw [hwanted, hwanted₀]
    exact Query.wantedReadings_buildText _ _ words

end FullText
