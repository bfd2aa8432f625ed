import Mathlib.Data.List.Basic
import FullText.Text.Fold

/-!
# Folding twice

No letter that another one folds to is folded further: the code points before and after folding have
none in common, which is checked on the tables (`foldTargets_sources`). So a text that is folded
stays as it is when it is folded again (`fold_fold`).
-/

namespace FullText.Text

variable {c d : Char} {n : Nat} {ms ns : List Nat}

/-! ## Lists of code points as bits -/

/-- The number in which the bits at the given places are set. -/
def bits (ns : List Nat) : Nat := ns.foldr (fun n m => 1 <<< n ||| m) 0

theorem testBit_bits : (bits ns).testBit n = true ↔ n ∈ ns := by
  induction ns with
  | nil => simp [bits]
  | cons m ns ih =>
    show (1 <<< m ||| bits ns).testBit n = true ↔ _
    rw [Nat.testBit_or, Bool.or_eq_true, ih, Nat.one_shiftLeft, Nat.testBit_two_pow,
      decide_eq_true_eq, List.mem_cons, @eq_comm _ m]

theorem notMem_of_bits (h : bits ms &&& bits ns = 0) (hm : n ∈ ms) : n ∉ ns := by
  intro hn
  have hbit : (bits ms &&& bits ns).testBit n = true := by
    rw [Nat.testBit_and, testBit_bits.mpr hm, testBit_bits.mpr hn]
    rfl
  rw [h, Nat.zero_testBit] at hbit
  exact absurd hbit (by simp)

/-! ## The code points of the tables -/

def FoldRun.sources (r : FoldRun) : List Nat :=
  (List.range ((r.last - r.first) / r.stride + 1)).map fun k => r.first + k * r.stride

def FoldRun.targets (r : FoldRun) : List Nat := r.sources.map fun n : Nat => (n + r.shift).toNat

/-- The code points that fold to others. -/
def foldSources : List Nat := foldRuns.flatMap FoldRun.sources ++ foldExpansions.map Prod.fst

/-- The code points that others fold to, and zero, which stands for numbers that are none. -/
def foldTargets : List Nat :=
  0 :: (foldRuns.flatMap FoldRun.targets ++ foldExpansions.flatMap Prod.snd)

theorem foldTargets_sources : bits foldTargets &&& bits foldSources = 0 := by decide +kernel

theorem FoldRun.mem_sources {r : FoldRun} (h : r.covers n = true) : n ∈ r.sources := by
  simp only [covers, Bool.and_eq_true, decide_eq_true_eq, beq_iff_eq] at h
  obtain ⟨⟨hfirst, hlast⟩, hstride⟩ := h
  refine List.mem_map.mpr ⟨(n - r.first) / r.stride, List.mem_range.mpr ?_, ?_⟩
  · exact Nat.lt_succ_of_le (Nat.div_le_div_right (by omega))
  · have hn := Nat.div_add_mod' (n - r.first) r.stride
    omega

/-- A letter that no table says anything about folds to itself. -/
theorem foldChar_of_notMem (h : c.toNat ∉ foldSources) : foldChar c = [c] := by
  obtain ⟨hruns, hexpansions⟩ := not_or.mp (mt List.mem_append.mpr h)
  have hrun : foldRuns.find? (·.covers c.toNat) = none := by
    refine List.find?_eq_none.mpr fun r hr hcovers => hruns ?_
    exact List.mem_flatMap.mpr ⟨r, hr, FoldRun.mem_sources hcovers⟩
  have hexpansion : foldExpansions.lookup c.toNat = none := by
    refine Option.eq_none_iff_forall_ne_some.mpr fun codes hcodes => hexpansions ?_
    obtain ⟨front, back, htable, -⟩ := List.lookup_eq_some_iff.mp hcodes
    simp [htable]
  unfold foldChar
  rw [hrun, hexpansion]

/-- What is no code point gives NUL. -/
theorem toNat_ofNat (n : Nat) : (Char.ofNat n).toNat = n ∨ (Char.ofNat n).toNat = 0 := by
  by_cases h : n.isValidChar
  · exact .inl (congrArg Char.toNat (dif_pos h))
  · exact .inr (congrArg Char.toNat (dif_neg h))

theorem foldChar_ofNat (h : n ∈ foldTargets) : foldChar (Char.ofNat n) = [Char.ofNat n] := by
  refine foldChar_of_notMem (notMem_of_bits foldTargets_sources ?_)
  rcases toNat_ofNat n with hn | hn
  · rwa [hn]
  · rw [hn]
    exact List.mem_cons_self

/-- What a letter folds to is folded. -/
theorem foldChar_of_mem (h : d ∈ foldChar c) : foldChar d = [d] := by
  unfold foldChar at h
  split at h
  · next r hr =>
    obtain rfl := List.mem_singleton.mp h
    have hcovers : r.covers c.toNat = true := by simpa using List.find?_some hr
    have hmem : (c.toNat + r.shift).toNat ∈ foldRuns.flatMap FoldRun.targets :=
      List.mem_flatMap.mpr ⟨r, List.mem_of_find?_eq_some hr,
        List.mem_map_of_mem (FoldRun.mem_sources hcovers)⟩
    exact foldChar_ofNat (List.mem_cons_of_mem _ (List.mem_append_left _ hmem))
  · next hnone =>
    split at h
    · next codes hcodes =>
      obtain ⟨n, hn, rfl⟩ := List.mem_map.mp h
      obtain ⟨front, back, htable, -⟩ := List.lookup_eq_some_iff.mp hcodes
      have hmem : n ∈ foldExpansions.flatMap Prod.snd :=
        List.mem_flatMap.mpr ⟨(c.toNat, codes), by simp [htable], hn⟩
      exact foldChar_ofNat (List.mem_cons_of_mem _ (List.mem_append_right _ hmem))
    · next hcodes =>
      obtain rfl := List.mem_singleton.mp h
      unfold foldChar
      rw [hnone]
      simp only [hcodes]

theorem foldChars_foldChars (cs : List Char) : foldChars (foldChars cs) = foldChars cs := by
  have hfolded : ∀ d ∈ foldChars cs, foldChar d = [d] := by
    intro d hd
    obtain ⟨c, -, hc⟩ := List.mem_flatMap.mp hd
    exact foldChar_of_mem hc
  rw [foldChars, List.flatMap_congr hfolded, List.flatMap_singleton']

@[simp] theorem fold_fold (s : String) : fold (fold s) = fold s := by
  unfold fold
  rw [String.toList_ofList, foldChars_foldChars]

end FullText.Text
