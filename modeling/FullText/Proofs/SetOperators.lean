import FullText.Proofs.WordSets

/-!
# Operators on stop words

Each operator of stop words does what the set operation of its name does to the set of folded
words (`exists_binary`, `exists_update`, `exists_compare`). An operand may be a list or a text of
words, stop words, or the very set that the operator works on. An ordinary set is left out: it does
not fold, so it is asked for words that it does not hold in that letter case.
-/

open scoped symmDiff

namespace FullText

variable {A B : Finset String} {ws : List String} {vs : List Value} {v : Value}
  {s t : StopWords} {o : Operand} {f : Fault}

/-! ## Operators and operands as sets -/

/-- The set operation that an operator stands for. -/
def SetOp.apply : SetOp → Finset String → Finset String → Finset String
  | .union, A, B => A ∪ B
  | .inter, A, B => A ∩ B
  | .diff, A, B => A \ B
  | .symmDiff, A, B => A ∆ B

/-- `A op B`, or `B op A` if `A` stands on the right. -/
def SetOp.applyAt (op : SetOp) : Side → Finset String → Finset String → Finset String
  | .left, A, B => op.apply A B
  | .right, A, B => op.apply B A

/-- What `A op= B` comes to when it stops after the elements of `B`. Union and difference take
element after element; the others make a set of all elements before they change anything. -/
def SetOp.partway : SetOp → Finset String → Finset String → Finset String
  | .union, A, B => A ∪ B
  | .diff, A, B => A \ B
  | .inter, A, _ | .symmDiff, A, _ => A

/-- The relation between sets that a comparison asks for. -/
def SetRel.Holds : SetRel → Finset String → Finset String → Prop
  | .eq, A, B => A = B
  | .ne, A, B => A ≠ B
  | .lt, A, B => A ⊂ B
  | .le, A, B => A ⊆ B
  | .gt, A, B => B ⊂ A
  | .ge, A, B => B ⊆ A

namespace Operand

/-- The words of an operand, folded, when it is held against the set `A`. -/
def members (A : Finset String) : Operand → Finset String
  | .set vs => folds (texts vs)
  | .words t => t.members
  | .self => A
  | .value v => folds (texts (v.elements?.getD []))

/-- Stop words, or the very set that an operator works on. -/
inductive IsWords : Operand → Prop
  | words {t : StopWords} (h : t.Folded) : IsWords (.words t)
  | self : IsWords .self

/-- Stop words, or a collection of texts that is no set. -/
inductive Worded : Operand → Prop
  | isWords {o : Operand} (h : o.IsWords) : Worded o
  | texts {v : Value} {ws : List String} (h : v.elements? = some (ws.map .text)) :
    Worded (.value v)

/-- Stop words, or a collection of any values that is no set. -/
inductive Collection : Operand → Prop
  | isWords {o : Operand} (h : o.IsWords) : Collection o
  | values {v : Value} {vs : List Value} (h : v.elements? = some vs) : Collection (.value v)

theorem Worded.collection (ho : o.Worded) : o.Collection := by
  cases ho with
  | isWords h => exact .isWords h
  | texts h => exact .values h

theorem IsWords.ofSet? (ho : o.IsWords) (hs : s.Folded) :
    ∃ t, WordSet.ofSet? s o = some (.folding t) ∧ t.Folded ∧ t.members = o.members s.members := by
  cases ho with
  | words ht => exact ⟨_, rfl, ht, rfl⟩
  | self => exact ⟨s, rfl, hs, rfl⟩

theorem IsWords.elements (ho : o.IsWords) (hs : s.Folded) :
    ∃ ws : List String, o.elements? s = some (ws.map .text) ∧ folds ws = o.members s.members := by
  cases ho with
  | words ht => exact ⟨_, rfl, StopWords.folds_words ht⟩
  | self => exact ⟨_, rfl, StopWords.folds_words hs⟩

theorem Worded.elements (ho : o.Worded) (hs : s.Folded) :
    ∃ ws : List String, o.elements? s = some (ws.map .text) ∧ folds ws = o.members s.members := by
  cases ho with
  | isWords h => exact h.elements hs
  | texts h => exact ⟨_, h, by simp [members, h]⟩

theorem Collection.elements (ho : o.Collection) (hs : s.Folded) :
    ∃ vs, o.elements? s = some vs ∧ folds (texts vs) = o.members s.members := by
  cases ho with
  | isWords h =>
    obtain ⟨ws, hws, hmembers⟩ := h.elements hs
    exact ⟨_, hws, by rwa [texts_map_text]⟩
  | values h => exact ⟨_, h, by simp [members, h]⟩

theorem Worded.ofOperand (ho : o.Worded) (hs : s.Folded) (f : Fault) :
    ∃ t, WordSet.ofOperand s f o = .ok (.folding t) ∧ t.Folded ∧
      t.members = o.members s.members := by
  cases ho with
  | isWords h =>
    obtain ⟨t, ht, hfolded⟩ := h.ofSet? hs
    exact ⟨t, by simp only [WordSet.ofOperand, ht], hfolded⟩
  | @texts v ws h =>
    refine ⟨.ofList ws, ?_, StopWords.folded_ofList ws, ?_⟩
    · simp only [WordSet.ofOperand, WordSet.ofSet?, h, StopWords.ofValues_text]
      rfl
    · simp [StopWords.members_ofList, members, h]

/-- A collection with an element that is no word cannot be made stop words. -/
theorem ofOperand_error {x : Value} {back : List Value}
    (h : v.elements? = some (ws.map .text ++ x :: back)) (hx : StopWords.wordOf x = .error f)
    (s : StopWords) (g : Fault) : WordSet.ofOperand s g (.value v) = .error f := by
  simp only [WordSet.ofOperand, WordSet.ofSet?, h, StopWords.ofValues_error hx]
  rfl

end Operand

namespace StopWords

/-! ## Operators that build a new set -/

theorem folds_filter_notMem (hs : s.Folded) (t : StopWords) :
    folds (s.words.filter (!t.contains ·)) = s.members \ t.members := by
  ext x
  simp only [mem_folds, List.mem_filter, Finset.mem_sdiff, mem_members, Bool.not_eq_true',
    ← Bool.not_eq_true, contains_iff]
  constructor
  · rintro ⟨w, ⟨hw, hwt⟩, rfl⟩
    exact ⟨(hs.fold_eq w hw).symm ▸ hw, hwt⟩
  · rintro ⟨hx, hxt⟩
    exact ⟨x, ⟨hx, (hs.fold_eq x hx).symm ▸ hxt⟩, hs.fold_eq x hx⟩

theorem folds_filter_mem (s : StopWords) (ws : List String) :
    folds (ws.filter s.contains) = s.members ∩ folds ws := by
  ext x
  simp only [mem_folds, List.mem_filter, Finset.mem_inter, contains_iff_members]
  grind

theorem others_folding (s t : StopWords) :
    s.others (.folding t) = .ok (ofList (t.words.filter (!s.contains ·))) := by
  rw [others, WordSet.elements, List.filter_map, ofValues_text]
  rfl

theorem inter_collection (hs : s.Folded) (ho : o.Collection) (side : Side) :
    ∃ ws, s.binary .inter side o = .ok (ofList ws) ∧
      folds ws = s.members ∩ o.members s.members := by
  obtain ⟨vs, hvs, hmembers⟩ := ho.elements hs
  refine ⟨(texts vs).filter s.contains, ?_, ?_⟩
  · simp only [binary, hvs, filter_containsValue, ofValues_text]
  · rw [folds_filter_mem, hmembers]

theorem exists_binary (hs : s.Folded) (ho : o.Worded) (op : SetOp) (side : Side) :
    ∃ ws, s.binary op side o = .ok (ofList ws) ∧
      folds ws = op.applyAt side s.members (o.members s.members) := by
  obtain ⟨ws, hws, hmembers⟩ := ho.elements hs
  obtain ⟨t, ht, htf, htm⟩ := ho.ofOperand hs (unsupported op side o)
  cases op with
  | union =>
    refine ⟨s.words ++ ws, ?_, ?_⟩
    · simp only [binary, hws, ← List.map_append, ofValues_text]
    · rw [folds_append, folds_words hs, hmembers]
      cases side with
      | left => rfl
      | right => exact Finset.union_comm _ _
  | inter =>
    obtain ⟨xs, hxs, hinter⟩ := inter_collection hs ho.collection side
    refine ⟨xs, hxs, hinter.trans ?_⟩
    cases side with
    | left => rfl
    | right => exact Finset.inter_comm _ _
  | diff =>
    cases side with
    | left =>
      refine ⟨s.words.filter (!t.contains ·), ?_, ?_⟩
      · simp only [binary, ht]
        rfl
      · rw [folds_filter_notMem hs, htm]
        rfl
    | right =>
      refine ⟨t.words.filter (!s.contains ·), ?_, ?_⟩
      · simp only [binary, ht]
        exact others_folding s t
      · rw [folds_filter_notMem htf, htm]
        rfl
  | symmDiff =>
    refine ⟨(ofList (s.words.filter (!t.contains ·))).words ++
      (ofList (t.words.filter (!s.contains ·))).words, ?_, ?_⟩
    · simp only [binary, ht]
      show (s.others (.folding t) >>= _) = _
      rw [others_folding]
      rfl
    · rw [folds_append, folds_words (folded_ofList _), folds_words (folded_ofList _),
        members_ofList, members_ofList, folds_filter_notMem hs, folds_filter_notMem htf, htm]
      cases side with
      | left => rfl
      | right => exact Finset.union_comm _ _

/-- An element that is no word stops every operator but the one that only looks for it. -/
theorem binary_error {op : SetOp} {x : Value} {back : List Value} (hop : op ≠ .inter)
    (h : v.elements? = some (ws.map .text ++ x :: back)) (hx : wordOf x = .error f) (side : Side) :
    s.binary op side (.value v) = .error f := by
  have hset := Operand.ofOperand_error h hx s (unsupported op side (.value v))
  cases op with
  | union =>
    simp only [binary, Operand.elements?, h, ← List.append_assoc, ← List.map_append,
      ofValues_error hx]
  | inter => exact absurd rfl hop
  | diff | symmDiff =>
    simp only [binary, hset]
    rfl

/-! ## Operators that change the set -/

theorem update_diff (ho : o ≠ .self) (h : o.elements? s = some vs) :
    s.update .diff o = forEach discardValue s vs := by
  cases o with
  | self => exact absurd rfl ho
  | set | words | value => simp only [update, h]

theorem update_symmDiff {c : WordSet} (ho : o ≠ .self)
    (h : WordSet.ofOperand s (.notIterable o.kind) o = .ok c) :
    s.update .symmDiff o = forEach toggleValue s c.elements := by
  cases o with
  | self => exact absurd rfl ho
  | set | words | value => simp only [update, h]

theorem exists_update (hs : s.Folded) (ho : o.Worded) (op : SetOp) :
    ∃ s', s.update op o = (.ok (), s') ∧ s'.Folded ∧
      s'.members = op.apply s.members (o.members s.members) := by
  obtain ⟨ws, hws, hmembers⟩ := ho.elements hs
  cases op with
  | union =>
    refine ⟨ws.foldl add s, ?_, hs.foldl Folded.add ws, ?_⟩
    · simp only [update, hws]
      exact forEach_text (fun _ _ => rfl) s ws
    · rw [members_foldl_add, hmembers]
      rfl
  | inter =>
    -- the words to take out are found first, so the set that is changed is not the one gone through
    obtain ⟨xs, hxs, hgone⟩ := exists_binary hs ho .diff .left
    refine ⟨(ofList xs).words.foldl discard s, ?_, hs.foldl Folded.discard _, ?_⟩
    · simp only [update, hxs]
      exact forEach_text (fun _ _ => rfl) s _
    · rw [members_foldl_discard hs, folds_words (folded_ofList xs), members_ofList, hgone]
      exact sdiff_sdiff_right_self
  | diff =>
    by_cases hself : o = .self
    · subst hself
      exact ⟨s.clear, rfl, hs.clear, (members_clear hs).trans (sdiff_self (a := s.members)).symm⟩
    · refine ⟨ws.foldl discard s, ?_, hs.foldl Folded.discard ws, ?_⟩
      · rw [update_diff hself hws, forEach_text fun _ _ => rfl]
      · rw [members_foldl_discard hs, hmembers]
        rfl
  | symmDiff =>
    by_cases hself : o = .self
    · subst hself
      exact ⟨s.clear, rfl, hs.clear, (members_clear hs).trans (symmDiff_self s.members).symm⟩
    · obtain ⟨t, ht, htf, htm⟩ := ho.ofOperand hs (.notIterable o.kind)
      refine ⟨t.words.foldl toggle s, ?_, hs.foldl Folded.toggle _, ?_⟩
      · rw [update_symmDiff hself ht, WordSet.elements, forEach_text toggleValue_text]
      · rw [members_foldl_toggle hs (htf.map_fold.symm ▸ htf.nodup), folds_words htf, htm]
        rfl

/-- When an element is no word, union and difference have done what the elements before it say, and
the others nothing. -/
theorem exists_update_error {x : Value} {back : List Value} (hs : s.Folded)
    (h : v.elements? = some (ws.map .text ++ x :: back)) (hx : wordOf x = .error f) (op : SetOp) :
    ∃ s', s.update op (.value v) = (.error f, s') ∧ s'.Folded ∧
      s'.members = op.partway s.members (folds ws) := by
  cases op with
  | union =>
    refine ⟨ws.foldl add s, ?_, hs.foldl Folded.add ws, members_foldl_add s ws⟩
    simp only [update, Operand.elements?, h]
    rw [forEach_append fun _ _ => rfl, forEach_error]
    rw [addValue, hx]
    rfl
  | inter =>
    refine ⟨s, ?_, hs, rfl⟩
    simp only [update, binary_error (show SetOp.diff ≠ .inter by decide) h hx]
  | diff =>
    refine ⟨ws.foldl discard s, ?_, hs.foldl Folded.discard ws, members_foldl_discard hs ws⟩
    rw [update_diff (show Operand.value v ≠ .self by simp) h, forEach_append fun _ _ => rfl,
      forEach_error]
    rw [discardValue, hx]
    rfl
  | symmDiff =>
    refine ⟨s, ?_, hs, rfl⟩
    simp only [update, Operand.ofOperand_error h hx]

/-! ## Comparisons -/

theorem size_folding (t : StopWords) : (WordSet.folding t).size = t.size :=
  List.length_map _

theorem isSubset_folding (hs : s.Folded) (ht : t.Folded) :
    s.isSubset (.folding t) = true ↔ s.members ⊆ t.members := by
  have hall : s.words.all t.contains = true ↔ s.members ⊆ t.members := by
    simp only [List.all_eq_true, contains_iff, Finset.subset_iff, mem_members]
    exact forall₂_congr fun w hw => by rw [hs.fold_eq w hw]
  show (decide (s.size ≤ (WordSet.folding t).size) && s.words.all t.contains) = true ↔ _
  rw [Bool.and_eq_true, decide_eq_true_eq, hall, size_folding, size_eq_card hs, size_eq_card ht]
  exact ⟨And.right, fun h => ⟨Finset.card_le_card h, h⟩⟩

theorem isSuperset_folding (s t : StopWords) :
    s.isSuperset (.folding t) = t.isSubset (.folding s) := by
  rw [isSuperset, WordSet.elements, List.all_map, size_folding, isSubset, size_folding]
  rfl

theorem eq_iff_folding (hs : s.Folded) (ht : t.Folded) :
    (s.size == t.size && s.isSubset (.folding t)) = true ↔ s.members = t.members := by
  rw [Bool.and_eq_true, beq_iff_eq, isSubset_folding hs ht, size_eq_card hs, size_eq_card ht]
  constructor
  · rintro ⟨hcard, hsub⟩
    exact Finset.eq_of_subset_of_card_le hsub hcard.ge
  · intro h
    rw [h]
    exact ⟨rfl, subset_rfl⟩

theorem lt_iff_folding (hs : s.Folded) (ht : t.Folded) :
    (decide (s.size < t.size) && s.isSubset (.folding t)) = true ↔ s.members ⊂ t.members := by
  rw [Bool.and_eq_true, decide_eq_true_eq, isSubset_folding hs ht, size_eq_card hs,
    size_eq_card ht]
  constructor
  · rintro ⟨hcard, hsub⟩
    exact hsub.ssubset_of_ne fun h => hcard.ne (congrArg Finset.card h)
  · intro h
    exact ⟨Finset.card_lt_card h, h.subset⟩

theorem exists_compare (hs : s.Folded) (ho : o.IsWords) (rel : SetRel) :
    ∃ b, s.compare rel o = .ok b ∧ (b = true ↔ rel.Holds s.members (o.members s.members)) := by
  obtain ⟨t, ht, htf, htm⟩ := ho.ofSet? hs
  rw [← htm]
  cases rel <;> simp only [compare, ht, size_folding, isSuperset_folding] <;> refine ⟨_, rfl, ?_⟩
  case eq => exact eq_iff_folding hs htf
  case ne =>
    rw [Bool.not_eq_true', ← Bool.not_eq_true, eq_iff_folding hs htf]
    rfl
  case lt => exact lt_iff_folding hs htf
  case le => exact isSubset_folding hs htf
  case gt => exact lt_iff_folding htf hs
  case ge => exact isSubset_folding htf hs

theorem exists_isDisjoint (hs : s.Folded) (ho : o.Collection) :
    ∃ b, s.isDisjoint o = .ok b ∧ (b = true ↔ Disjoint s.members (o.members s.members)) := by
  obtain ⟨vs, hvs, hmembers⟩ := ho.elements hs
  refine ⟨!vs.any s.containsValue, by simp only [isDisjoint, hvs], ?_⟩
  calc (!vs.any s.containsValue) = true ↔ vs.filter s.containsValue = [] := by
        simp [List.filter_eq_nil_iff]
    _ ↔ folds ((texts vs).filter s.contains) = ∅ := by
        simp [filter_containsValue, folds]
    _ ↔ Disjoint s.members (o.members s.members) := by
        rw [folds_filter_mem, hmembers, Finset.disjoint_iff_inter_eq_empty]

end StopWords

end FullText
