import Mathlib.Algebra.Ring.Parity
import FullText.Proofs.SetOperators

/-!
# Operators with ordinary sets

An ordinary set does not fold: it holds a word only letter by letter. What `s op= o` leaves and what
`s op o` gives are then sets of different words, unless the letter cases in the operand allow it
(`update_agrees_iff`). With all other operands the two always agree.
-/

open scoped symmDiff

namespace FullText

open Text (fold)

variable {ws : List String} {w x : String} {s : StopWords} {o : Operand}

/-- What `A op o` gives when `o` is the ordinary set of the words `ws`. -/
def SetOp.anew : SetOp → Finset String → List String → Finset String
  | .union, A, ws => A ∪ folds ws
  | .inter, A, ws => A ∩ folds ws
  | .diff, A, ws => A \ ws.toFinset
  | .symmDiff, A, ws => A \ ws.toFinset ∪ folds ws \ A

/-- The words that an odd number of the words `ws` fold to. -/
def oddFolds (ws : List String) : Finset String :=
  (folds ws).filter fun w => Odd ((ws.map fold).count w)

theorem mem_oddFolds : x ∈ oddFolds ws ↔ Odd ((ws.map fold).count x) := by
  rw [oddFolds, Finset.mem_filter, and_iff_right_iff_imp]
  intro hodd
  by_contra hx
  have hcount : (ws.map fold).count x = 0 := List.count_eq_zero.mpr (by simpa using hx)
  rw [hcount] at hodd
  exact absurd hodd (by decide)

theorem oddFolds_cons (w : String) (ws : List String) :
    oddFolds (w :: ws) = {fold w} ∆ oddFolds ws := by
  ext x
  rw [Finset.mem_symmDiff, mem_oddFolds, mem_oddFolds, List.map_cons, List.count_cons,
    Finset.mem_singleton]
  by_cases hx : x = fold w
  · simp [hx, Nat.odd_add_one]
  · simp [hx, Ne.symm hx]

/-- What `A op= o` leaves when `o` is the ordinary set of the words `ws`. -/
def SetOp.inPlace : SetOp → Finset String → List String → Finset String
  | .union, A, ws => A ∪ folds ws
  | .inter, A, ws => A ∩ ws.toFinset
  | .diff, A, ws => A \ folds ws
  | .symmDiff, A, ws => A ∆ oddFolds ws

/-- When the two come to the same. The words of `A` that the ordinary set holds in any letter case
have to be held folded; for the symmetric difference it also counts how many fold to one word. -/
def SetOp.AgreesOn : SetOp → Finset String → List String → Prop
  | .union, _, _ => True
  | .inter, A, ws | .diff, A, ws => ∀ w ∈ A, w ∈ folds ws → w ∈ ws
  | .symmDiff, A, ws => ∀ w ∈ folds ws, (w ∈ oddFolds ws ↔ (w ∈ A → w ∈ ws))

/-- A collection of texts: one that is no set, stop words, or an ordinary set. -/
inductive Operand.Textual : Operand → Prop
  | worded {o : Operand} (h : o.Worded) : Textual o
  | set (ws : List String) : Textual (.set (ws.map .text))

theorem Operand.not_worded_set {vs : List Value} : ¬(Operand.set vs).Worded := by
  rintro (⟨⟨⟩⟩ | -)

theorem map_text_injective : Function.Injective (List.map Value.text) :=
  List.map_injective_iff.mpr fun _ _ h => Value.text.inj h

namespace StopWords

/-! ## Results -/

theorem contains_exact (ws : List String) (w : String) :
    (WordSet.exact (ws.map .text)).contains w = decide (w ∈ ws) := by
  rw [WordSet.contains, List.any_map, Bool.eq_iff_iff, List.any_eq_true, decide_eq_true_eq]
  constructor
  · rintro ⟨x, hx, hsame⟩
    obtain rfl : x = w := by simpa [Value.same] using hsame
    exact hx
  · intro hw
    exact ⟨w, hw, by simp [Value.same]⟩

theorem folds_filter_exact (hs : s.Folded) (ws : List String) :
    folds (s.words.filter (!(WordSet.exact (ws.map .text)).contains ·)) =
      s.members \ ws.toFinset := by
  ext x
  simp only [mem_folds, List.mem_filter, contains_exact, Finset.mem_sdiff, mem_members,
    List.mem_toFinset, Bool.not_eq_true', decide_eq_false_iff_not]
  constructor
  · rintro ⟨w, ⟨hw, hws⟩, rfl⟩
    rw [hs.fold_eq w hw]
    exact ⟨hw, hws⟩
  · rintro ⟨hx, hxs⟩
    exact ⟨x, ⟨hx, hxs⟩, hs.fold_eq x hx⟩

theorem folds_filter_not_contains (s : StopWords) (ws : List String) :
    folds (ws.filter (!s.contains ·)) = folds ws \ s.members := by
  ext x
  simp only [mem_folds, List.mem_filter, Finset.mem_sdiff, Bool.not_eq_true', ← Bool.not_eq_true,
    contains_iff_members]
  grind

theorem others_exact (s : StopWords) (ws : List String) :
    s.others (.exact (ws.map .text)) = .ok (ofList (ws.filter (!s.contains ·))) := by
  rw [others, WordSet.elements, List.filter_map, ofValues_text]
  rfl

theorem exists_binary_set (hs : s.Folded) (op : SetOp) (ws : List String) :
    ∃ xs, s.binary op .left (.set (ws.map .text)) = .ok (ofList xs) ∧
      folds xs = op.anew s.members ws := by
  cases op with
  | union =>
    refine ⟨s.words ++ ws, ?_, ?_⟩
    · simp only [binary, Operand.elements?, ← List.map_append, ofValues_text]
    · rw [folds_append, folds_words hs]
      rfl
  | inter =>
    refine ⟨ws.filter s.contains, ?_, folds_filter_mem s ws⟩
    simp only [binary, Operand.elements?, filter_containsValue, texts_map_text, ofValues_text]
  | diff => exact ⟨_, rfl, folds_filter_exact hs ws⟩
  | symmDiff =>
    refine ⟨(s.without (.exact (ws.map .text))).words ++
      (ofList (ws.filter (!s.contains ·))).words, ?_, ?_⟩
    · show (s.others (.exact (ws.map .text)) >>= _) = _
      rw [others_exact]
      rfl
    · rw [folds_append, without, folds_words (folded_ofList _), folds_words (folded_ofList _),
        members_ofList, members_ofList, folds_filter_exact hs, folds_filter_not_contains]
      rfl

/-- Each word that comes is taken out or put back, so what counts is whether it comes an odd number
of times. -/
theorem members_foldl_toggle_odd (hs : s.Folded) (ws : List String) :
    (ws.foldl toggle s).members = s.members ∆ oddFolds ws := by
  induction ws generalizing s with
  | nil => exact (symmDiff_bot _).symm
  | cons w ws ih =>
    rw [List.foldl_cons, ih (hs.toggle w), members_toggle hs, symmDiff_assoc, oddFolds_cons]

theorem exists_update_set (hs : s.Folded) (op : SetOp) (ws : List String) :
    ∃ s', s.update op (.set (ws.map .text)) = (.ok (), s') ∧ s'.Folded ∧
      s'.members = op.inPlace s.members ws := by
  have helements : (Operand.set (ws.map .text)).elements? s = some (ws.map .text) := rfl
  cases op with
  | union =>
    refine ⟨ws.foldl add s, ?_, hs.foldl Folded.add ws, members_foldl_add s ws⟩
    simp only [update, helements]
    exact forEach_text (fun _ _ => rfl) s ws
  | inter =>
    -- the difference that is taken out does not fold, so it may hold words that the operand names
    obtain ⟨xs, hxs, hgone⟩ := exists_binary_set hs .diff ws
    refine ⟨(ofList xs).words.foldl discard s, ?_, hs.foldl Folded.discard _, ?_⟩
    · simp only [update, hxs]
      exact forEach_text (fun _ _ => rfl) s _
    · rw [members_foldl_discard hs, folds_words (folded_ofList xs), members_ofList, hgone]
      exact sdiff_sdiff_right_self
  | diff =>
    refine ⟨ws.foldl discard s, ?_, hs.foldl Folded.discard ws, members_foldl_discard hs ws⟩
    rw [update_diff (by simp) helements, forEach_text fun _ _ => rfl]
  | symmDiff =>
    refine ⟨ws.foldl toggle s, ?_, hs.foldl Folded.toggle ws, members_foldl_toggle_odd hs ws⟩
    rw [update_symmDiff (by simp) (c := .exact (ws.map .text)) rfl, WordSet.elements,
      forEach_text toggleValue_text]

/-! ## Agreement -/

theorem mem_folds_of_mem (hs : s.Folded) (hx : x ∈ s.members) (hxs : x ∈ ws) : x ∈ folds ws :=
  mem_folds.mpr ⟨x, hxs, hs.fold_eq x (mem_members.mp hx)⟩

theorem inPlace_eq_anew_iff (hs : s.Folded) (op : SetOp) (ws : List String) :
    op.inPlace s.members ws = op.anew s.members ws ↔ op.AgreesOn s.members ws := by
  have hfolds : ∀ x ∈ s.members, x ∈ ws → x ∈ folds ws := fun x => mem_folds_of_mem hs
  have hodd : ∀ x ∈ oddFolds ws, x ∈ folds ws := fun x hx => Finset.mem_of_mem_filter x hx
  cases op with
  | union => exact iff_of_true rfl trivial
  | inter =>
    simp only [SetOp.inPlace, SetOp.anew, SetOp.AgreesOn, Finset.ext_iff, Finset.mem_inter,
      List.mem_toFinset]
    grind
  | diff =>
    simp only [SetOp.inPlace, SetOp.anew, SetOp.AgreesOn, Finset.ext_iff, Finset.mem_sdiff,
      List.mem_toFinset]
    grind
  | symmDiff =>
    simp only [SetOp.inPlace, SetOp.anew, SetOp.AgreesOn, Finset.ext_iff, Finset.mem_symmDiff,
      Finset.mem_union, Finset.mem_sdiff, List.mem_toFinset]
    grind

/-- **In place and anew.** An operator leaves the same words in place as it gives in a new set,
unless the operand is an ordinary set whose letter cases do not allow it. -/
theorem update_agrees_iff (hs : s.Folded) (ho : o.Textual) (op : SetOp) :
    ∃ s' t, s.update op o = (.ok (), s') ∧ s.binary op .left o = .ok t ∧
      (s'.members = t.members ↔
        ∀ ws, o = .set (ws.map .text) → op.AgreesOn s.members ws) := by
  cases ho with
  | worded ho =>
    obtain ⟨s', hs', -, hchanged⟩ := exists_update hs ho op
    obtain ⟨xs, hxs, hbuilt⟩ := exists_binary hs ho op .left
    refine ⟨s', _, hs', hxs, iff_of_true ?_ fun ws hset => ?_⟩
    · rw [members_ofList, hchanged, hbuilt]
      rfl
    · exact absurd (hset ▸ ho) Operand.not_worded_set
  | set ws =>
    obtain ⟨s', hs', -, hchanged⟩ := exists_update_set hs op ws
    obtain ⟨xs, hxs, hbuilt⟩ := exists_binary_set hs op ws
    refine ⟨s', _, hs', hxs, ?_⟩
    rw [members_ofList, hchanged, hbuilt, inPlace_eq_anew_iff hs]
    constructor
    · rintro h xs hset
      obtain rfl := map_text_injective (Operand.set.inj hset)
      exact h
    · exact fun h => h ws rfl

/-- Three spellings of one word: in place it is taken out, put back and taken out again. -/
theorem spellings_agree :
    Folded ⟨["of", "to"]⟩ ∧ (Operand.set (["OF", "Of", "of"].map .text)).Textual ∧ ∃ s' t,
      update .symmDiff ⟨["of", "to"]⟩ (.set (["OF", "Of", "of"].map .text)) = (.ok (), s') ∧
      binary .symmDiff .left ⟨["of", "to"]⟩ (.set (["OF", "Of", "of"].map .text)) = .ok t ∧
      s'.members = t.members := by
  have hs : Folded ⟨["of", "to"]⟩ := ⟨by decide, by decide +kernel⟩
  have hon : SetOp.AgreesOn .symmDiff (members ⟨["of", "to"]⟩) ["OF", "Of", "of"] := by
    show ∀ w ∈ folds _, (_ ↔ _)
    decide +kernel
  obtain ⟨s', t, hs', ht, hiff⟩ := update_agrees_iff hs (.set ["OF", "Of", "of"]) .symmDiff
  refine ⟨hs, .set _, s', t, hs', ht, hiff.mpr fun ws hws => ?_⟩
  obtain rfl := map_text_injective (Operand.set.inj hws)
  exact hon

/-- The difference keeps a word that the operand holds in another letter case, but in place it is
taken out. -/
theorem capital_kept_by_difference :
    update .diff (ofList ["the"]) (.set [.text "THE"]) = (.ok (), ⟨[]⟩) ∧
      binary .diff .left (ofList ["the"]) (.set [.text "THE"]) = .ok ⟨["the"]⟩ ∧
      members ⟨[]⟩ ≠ members ⟨["the"]⟩ := by
  exact ⟨by decide +kernel, by decide +kernel, by decide +kernel⟩

end StopWords

end FullText
