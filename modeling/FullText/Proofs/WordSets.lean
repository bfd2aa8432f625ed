import Mathlib.Data.Finset.Card
import Mathlib.Data.Finset.SymmDiff
import FullText.Proofs.Folding
import FullText.StopWords.Algebra

/-!
# Stop words as sets

Stop words are kept in a list. Here they are seen as the mathematical set of their words, and each
operation as what it does to that set. Two things make this a view without loss: no word is kept
twice, and every word is kept folded (`StopWords.Folded`), so that an operation that folds a kept
word once more finds the word itself.
-/

namespace FullText

open Text (fold)

variable {w x : String} {ws : List String} {vs : List Value}

/-- The words of a list, folded, as a set. -/
def folds (ws : List String) : Finset String := (ws.map fold).toFinset

@[simp] theorem mem_folds : x ∈ folds ws ↔ ∃ w ∈ ws, fold w = x := by
  simp [folds]

@[simp] theorem folds_nil : folds [] = ∅ := rfl

@[simp] theorem folds_cons : folds (w :: ws) = insert (fold w) (folds ws) := by
  simp [folds]

theorem folds_append (ws xs : List String) : folds (ws ++ xs) = folds ws ∪ folds xs := by
  simp [folds]

/-- The texts among some values. -/
def texts (vs : List Value) : List String :=
  vs.filterMap fun
    | .text w => some w
    | _ => none

@[simp] theorem texts_map_text (ws : List String) : texts (ws.map .text) = ws := by
  induction ws with
  | nil => rfl
  | cons w ws ih => exact congrArg (w :: ·) ih

namespace StopWords

variable {s t : StopWords}

/-- The words as a mathematical set. -/
def members (s : StopWords) : Finset String := s.words.toFinset

/-- The words are folded, and none is kept twice. -/
structure Folded (s : StopWords) : Prop where
  nodup : s.words.Nodup
  fold_eq : ∀ w ∈ s.words, fold w = w

@[simp] theorem mem_members : x ∈ s.members ↔ x ∈ s.words := by
  simp [members]

theorem contains_iff_members : s.contains w = true ↔ fold w ∈ s.members := by
  rw [contains_iff, mem_members]

theorem containsValue_iff {v : Value} :
    s.containsValue v = true ↔ ∃ w, v = .text w ∧ fold w ∈ s.members := by
  cases v with
  | text w => simpa [containsValue] using contains_iff_members
  | _ => simp [containsValue]

theorem size_eq_card (h : s.Folded) : s.size = s.members.card :=
  (List.toFinset_card_of_nodup h.nodup).symm

/-- The order of the words does not matter. -/
theorem members_of_perm (h : s.words.Perm t.words) : s.members = t.members :=
  List.toFinset_eq_of_perm _ _ h

theorem Folded.of_perm (hs : s.Folded) (h : s.words.Perm t.words) : t.Folded :=
  ⟨h.nodup_iff.mp hs.nodup, fun w hw => hs.fold_eq w (h.mem_iff.mpr hw)⟩

theorem Folded.map_fold (h : s.Folded) : s.words.map fold = s.words := by
  rw [List.map_congr_left h.fold_eq, List.map_id']

theorem folds_words (h : s.Folded) : folds s.words = s.members := by
  rw [folds, h.map_fold, members]

/-! ## One word -/

theorem folded_empty : empty.Folded := ⟨List.nodup_nil, by simp [empty]⟩

theorem Folded.add (h : s.Folded) (w : String) : (s.add w).Folded where
  nodup := nodup_add h.nodup w
  fold_eq x hx := by
    rcases mem_words_add.mp hx with rfl | hx
    · exact Text.fold_fold w
    · exact h.fold_eq x hx

theorem Folded.discard (h : s.Folded) (w : String) : (s.discard w).Folded where
  nodup := nodup_discard h.nodup w
  fold_eq x hx := h.fold_eq x ((mem_words_discard h.nodup).mp hx).2

theorem members_add (s : StopWords) (w : String) :
    (s.add w).members = insert (fold w) s.members := by
  ext x
  simp [mem_words_add]

theorem members_discard (h : s.Folded) (w : String) :
    (s.discard w).members = s.members.erase (fold w) := by
  ext x
  simp [mem_words_discard h.nodup]

/-- Takes the word out if it is there, else adds it. -/
def toggle (s : StopWords) (w : String) : StopWords :=
  if s.contains w then s.discard w else s.add w

theorem Folded.toggle (h : s.Folded) (w : String) : (s.toggle w).Folded := by
  unfold StopWords.toggle
  split
  · exact h.discard w
  · exact h.add w

theorem members_toggle (h : s.Folded) (w : String) :
    (s.toggle w).members = symmDiff s.members {fold w} := by
  unfold toggle
  split
  · next hw =>
    rw [members_discard h, Finset.erase_eq]
    exact (symmDiff_of_ge (by simpa using contains_iff_members.mp hw)).symm
  · next hw =>
    have hdisjoint : Disjoint s.members {fold w} := by simpa [contains_iff_members] using hw
    rw [members_add, hdisjoint.symmDiff_eq_sup, Finset.insert_eq, Finset.sup_eq_union,
      Finset.union_comm]

/-! ## Word after word -/

theorem Folded.foldl {f : StopWords → String → StopWords}
    (hf : ∀ {s : StopWords}, s.Folded → ∀ w, (f s w).Folded) (h : s.Folded) (ws : List String) :
    (ws.foldl f s).Folded := by
  induction ws generalizing s with
  | nil => exact h
  | cons w ws ih => exact ih (hf h w)

theorem members_foldl_add (s : StopWords) (ws : List String) :
    (ws.foldl add s).members = s.members ∪ folds ws := by
  induction ws generalizing s with
  | nil => simp
  | cons w ws ih => rw [List.foldl_cons, ih, members_add, folds_cons, Finset.insert_union,
      Finset.union_insert]

theorem members_foldl_discard (h : s.Folded) (ws : List String) :
    (ws.foldl discard s).members = s.members \ folds ws := by
  induction ws generalizing s with
  | nil => simp
  | cons w ws ih =>
    rw [List.foldl_cons, ih (h.discard w), members_discard h, folds_cons, Finset.sdiff_insert,
      Finset.erase_sdiff_comm]

/-- A word that comes twice would be put back, so the words have to be different ones. -/
theorem members_foldl_toggle (h : s.Folded) (hws : (ws.map fold).Nodup) :
    (ws.foldl toggle s).members = symmDiff s.members (folds ws) := by
  induction ws generalizing s with
  | nil => exact (symmDiff_bot _).symm
  | cons w ws ih =>
    obtain ⟨hw, hws⟩ := List.nodup_cons.mp hws
    have hdisjoint : Disjoint {fold w} (folds ws) := by simpa using hw
    rw [List.foldl_cons, ih (h.toggle w) hws, members_toggle h, symmDiff_assoc,
      hdisjoint.symmDiff_eq_sup, folds_cons, Finset.insert_eq, Finset.sup_eq_union]

theorem folded_ofList (ws : List String) : (ofList ws).Folded :=
  folded_empty.foldl Folded.add ws

theorem members_ofList (ws : List String) : (ofList ws).members = folds ws := by
  rw [ofList, members_foldl_add]
  exact Finset.empty_union _

theorem eq_empty_of_words (h : s.words = []) : s = empty := by
  cases s
  exact congrArg StopWords.mk h

theorem Folded.discard_cons (h : s.Folded) (hs : s.words = w :: ws) : (s.discard w).words = ws := by
  rw [StopWords.discard, h.fold_eq w (by simp [hs]), hs, List.erase_cons_head]

theorem Folded.drain_eq_empty (h : s.Folded) {n : Nat} (hn : s.size ≤ n) : s.drain n = empty := by
  induction n generalizing s with
  | zero => exact eq_empty_of_words (List.length_eq_zero_iff.mp (Nat.le_zero.mp hn))
  | succ n ih =>
    rcases hs : s.words with _ | ⟨w, ws⟩
    · rw [drain, pop, hs]
      exact eq_empty_of_words hs
    · rw [drain, pop, hs]
      refine ih (h.discard w) ?_
      rw [size, h.discard_cons hs]
      rw [size, hs, List.length_cons] at hn
      omega

/-- Taking out word after word until none is left ends with none. -/
theorem Folded.clear_eq_empty (h : s.Folded) : s.clear = empty := h.drain_eq_empty le_rfl

theorem Folded.clear (h : s.Folded) : s.clear.Folded := h.clear_eq_empty ▸ folded_empty

theorem members_clear (h : s.Folded) : s.clear.members = ∅ := by
  rw [h.clear_eq_empty]
  rfl

/-! ## Values one after the other -/

theorem forEach_append {step : StopWords → Value → Except Fault StopWords}
    {f : StopWords → String → StopWords} (hf : ∀ s w, step s (.text w) = .ok (f s w))
    (s : StopWords) (ws : List String) (vs : List Value) :
    forEach step s (ws.map .text ++ vs) = forEach step (ws.foldl f s) vs := by
  induction ws generalizing s with
  | nil => rfl
  | cons w ws ih =>
    rw [List.map_cons, List.cons_append, forEach, hf]
    exact ih (f s w)

theorem forEach_text {step : StopWords → Value → Except Fault StopWords}
    {f : StopWords → String → StopWords} (hf : ∀ s w, step s (.text w) = .ok (f s w))
    (s : StopWords) (ws : List String) :
    forEach step s (ws.map .text) = (.ok (), ws.foldl f s) := by
  rw [← List.append_nil (ws.map Value.text), forEach_append hf, forEach]

theorem forEach_error {step : StopWords → Value → Except Fault StopWords} {v : Value} {f : Fault}
    (h : step s v = .error f) (vs : List Value) : forEach step s (v :: vs) = (.error f, s) := by
  rw [forEach, h]

theorem toggleValue_text (s : StopWords) (w : String) :
    s.toggleValue (.text w) = .ok (s.toggle w) := by
  show (if s.contains w then .ok (s.discard w) else .ok (s.add w)) = Except.ok (s.toggle w)
  unfold toggle
  split <;> rfl

/-- Values with one among them that is no word make no set of stop words. -/
theorem ofValues_error {v : Value} {f : Fault} (hv : wordOf v = .error f) (ws : List String)
    (vs : List Value) : ofValues (ws.map .text ++ v :: vs) = .error f := by
  unfold ofValues
  generalize empty = s
  induction ws generalizing s with
  | nil =>
    rw [List.map_nil, List.nil_append, List.foldlM_cons, addValue, hv]
    rfl
  | cons w ws ih => exact ih (s.add w)

theorem filter_containsValue (s : StopWords) (vs : List Value) :
    vs.filter s.containsValue = ((texts vs).filter s.contains).map .text := by
  induction vs with
  | nil => rfl
  | cons v vs ih =>
    cases v with
    | text w =>
      show _ = ((w :: texts vs).filter s.contains).map Value.text
      by_cases hw : s.contains w
      · rw [List.filter_cons_of_pos hw, List.map_cons, ← ih]
        exact List.filter_cons_of_pos hw
      · rw [List.filter_cons_of_neg hw, ← ih]
        exact List.filter_cons_of_neg hw
    | _ => exact ih

end StopWords

end FullText
