import Mathlib.Data.List.Basic
import Mathlib.Data.List.TakeWhile
import FullText.Proofs.Between
import FullText.Proofs.Runs

/-!
# The mark that closes a block

The double quotes of a text, paired from left to right, bound its quoted spans (`quotedSpans`). A
block is closed by the first closing mark outside these in front of which as many blocks have been
closed as opened (`block_ends_at_match`). A text is looked through character by character and span
by span (`span_induction`), and what has been passed only shifts the places in what is left
(`closesAt_append`).
-/

namespace FullText

namespace Cursor

variable {opener closer ch : Char} {before cs w rest text : List Char} {ns : List Nat}
  {i inner inner' k n p : Nat}

/-! ## Quoted spans -/

/-- Places two by two, in their order. The last of an odd number stands alone. -/
def pairOff : List Nat → List (Nat × Option Nat)
  | first :: last :: ns => (first, some last) :: pairOff ns
  | [first] => [(first, none)]
  | [] => []

/-- The places of the quotes around each quoted span. One that is not closed has no last place. -/
def quotedSpans (cs : List Char) : List (Nat × Option Nat) := pairOff (cs.findIdxs (· == '"'))

/-- Whether a place lies in a quoted span. One that is not closed reaches to the end. -/
def inQuotes (cs : List Char) (k : Nat) : Bool :=
  (quotedSpans cs).any fun span => decide (span.1 ≤ k) && span.2.all fun last => decide (k ≤ last)

theorem pairOff_map (f : Nat → Nat) (ns : List Nat) :
    pairOff (ns.map f) = (pairOff ns).map (Prod.map f (Option.map f)) := by
  fun_induction pairOff ns with
  | case1 first last ns ih => simp [pairOff, ih]
  | case2 first => rfl
  | case3 => rfl

theorem findIdxs_quote_append (h : '"' ∉ w) (cs : List Char) :
    (w ++ cs).findIdxs (· == '"') = (cs.findIdxs (· == '"')).map (· + w.length) := by
  induction w with
  | nil => simp
  | cons ch w ih =>
    obtain ⟨hch, hw⟩ := not_or.mp (mt List.mem_cons.mpr h)
    rw [List.cons_append, List.findIdxs_cons, if_neg (by simpa using Ne.symm hch),
      List.findIdxs_start, ih hw, List.map_map]
    simp [Function.comp_def, Nat.add_assoc]

theorem findIdxs_quote_cons (cs : List Char) :
    ('"' :: cs).findIdxs (· == '"') = 0 :: (cs.findIdxs (· == '"')).map (· + 1) := by
  rw [List.findIdxs_cons, if_pos (by decide), List.findIdxs_start]

theorem quotedSpans_append (h : '"' ∉ w) (cs : List Char) :
    quotedSpans (w ++ cs) =
      (quotedSpans cs).map (Prod.map (· + w.length) (Option.map (· + w.length))) := by
  rw [quotedSpans, findIdxs_quote_append h, pairOff_map, quotedSpans]

theorem quotedSpans_phrase (h : '"' ∉ w) (rest : List Char) :
    quotedSpans ('"' :: (w ++ '"' :: rest)) = (0, some (w.length + 1)) ::
      (quotedSpans rest).map (Prod.map (· + (w.length + 2)) (Option.map (· + (w.length + 2)))) := by
  have hplaces : ('"' :: (w ++ '"' :: rest)).findIdxs (· == '"') =
      0 :: (w.length + 1) :: (rest.findIdxs (· == '"')).map (· + (w.length + 2)) := by
    have hshift : ((· + 1) ∘ (· + w.length)) ∘ (· + 1) = (· + (w.length + 2)) := by
      funext k
      simp only [Function.comp_apply]
      omega
    rw [findIdxs_quote_cons, findIdxs_quote_append h, findIdxs_quote_cons, List.map_cons,
      List.map_cons, List.map_map, List.map_map, hshift, Nat.zero_add]
  rw [quotedSpans, hplaces, pairOff, pairOff_map, quotedSpans]

theorem quotedSpans_unclosed (h : '"' ∉ w) : quotedSpans ('"' :: w) = [(0, none)] := by
  have hw := findIdxs_quote_append h []
  rw [List.append_nil, List.findIdxs_nil, List.map_nil] at hw
  rw [quotedSpans, findIdxs_quote_cons, hw]
  rfl

/-- Behind what is passed, the places are the same ones, further on. -/
theorem any_shift (spans : List (Nat × Option Nat)) (n k : Nat) :
    ((spans.map (Prod.map (· + n) (Option.map (· + n)))).any fun span =>
        decide (span.1 ≤ k + n) && span.2.all fun last => decide (k + n ≤ last)) =
      spans.any fun span => decide (span.1 ≤ k) && span.2.all fun last => decide (k ≤ last) := by
  rw [List.any_map]
  congr 1
  funext span
  obtain ⟨first, _ | last⟩ := span <;> simp

theorem inQuotes_append (h : '"' ∉ w) (cs : List Char) (k : Nat) :
    inQuotes (w ++ cs) (k + w.length) = inQuotes cs k := by
  rw [inQuotes, quotedSpans_append h, any_shift, inQuotes]

theorem inQuotes_of_lt (h : '"' ∉ w) (cs : List Char) (hk : k < w.length) :
    inQuotes (w ++ cs) k = false := by
  rw [inQuotes, quotedSpans_append h, List.any_map, List.any_eq_false]
  rintro ⟨first, last⟩ -
  have hfirst : ¬first + w.length ≤ k := by omega
  simp [hfirst]

theorem inQuotes_zero (h : ch ≠ '"') (cs : List Char) : inQuotes (ch :: cs) 0 = false :=
  inQuotes_of_lt (w := [ch]) (by simpa using Ne.symm h) cs (by simp)

theorem inQuotes_phrase (h : '"' ∉ w) (rest : List Char) (k : Nat) :
    inQuotes ('"' :: (w ++ '"' :: rest)) (k + (w.length + 2)) = inQuotes rest k := by
  have hlast : ¬k + (w.length + 2) ≤ w.length + 1 := by omega
  rw [inQuotes, quotedSpans_phrase h, List.any_cons, any_shift, inQuotes]
  simp [hlast]

theorem inQuotes_phrase_of_le (h : '"' ∉ w) (rest : List Char) (hk : k ≤ w.length + 1) :
    inQuotes ('"' :: (w ++ '"' :: rest)) k = true := by
  rw [inQuotes, quotedSpans_phrase h, List.any_cons]
  simp [hk]

theorem inQuotes_unclosed (h : '"' ∉ w) (k : Nat) : inQuotes ('"' :: w) k = true := by
  rw [inQuotes, quotedSpans_unclosed h]
  rfl

/-- A text is looked through character by character and span by span. -/
@[elab_as_elim]
theorem span_induction {P : List Char → Prop} (cs : List Char) (nil : P [])
    (plain : ∀ ch cs, ch ≠ '"' → P cs → P (ch :: cs))
    (phrase : ∀ w rest, '"' ∉ w → P rest → P ('"' :: (w ++ '"' :: rest)))
    (unclosed : ∀ w, '"' ∉ w → P ('"' :: w)) : P cs := by
  induction hn : cs.length using Nat.strongRecOn generalizing cs with
  | ind n ih =>
    cases cs with
    | nil => exact nil
    | cons ch cs =>
      rw [List.length_cons] at hn
      by_cases hch : ch = '"'
      · subst hch
        by_cases hmem : '"' ∈ cs
        · obtain ⟨w, rest, rfl, hw⟩ := List.eq_append_cons_of_mem hmem
          rw [List.length_append, List.length_cons] at hn
          exact phrase w rest hw (ih rest.length (by omega) rest rfl)
        · exact unclosed cs hmem
      · exact plain ch cs hch (ih cs.length (by omega) cs rfl)

/-! ## Closing marks -/

/-- How often the character stands outside the quoted spans, among the first `n`. -/
def countOutside (cs : List Char) (ch : Char) (n : Nat) : Nat :=
  (List.range n).countP fun k => cs[k]? == some ch && !inQuotes cs k

/-- At the place stands a closing mark outside the quoted spans, and in front of it `inner` more of
them than opening marks. -/
structure ClosesAt (opener closer : Char) (inner : Nat) (cs : List Char) (n : Nat) : Prop where
  mark : cs[n]? = some closer
  outside : inQuotes cs n = false
  level : countOutside cs closer n = countOutside cs opener n + inner

theorem countOutside_append (hw : ∀ k, inQuotes (w ++ cs) (k + w.length) = inQuotes cs k)
    (ch : Char) (n : Nat) : countOutside (w ++ cs) ch (n + w.length) =
      countOutside (w ++ cs) ch w.length + countOutside cs ch n := by
  unfold countOutside
  rw [Nat.add_comm n, List.range_add, List.countP_append, List.countP_map]
  congr 2
  funext k
  rw [Function.comp_apply, Nat.add_comm w.length, hw, List.getElem?_append_right (by omega),
    Nat.add_sub_cancel]

theorem countOutside_eq_zero (hw : ∀ k < n, inQuotes cs k = true) (ch : Char) :
    countOutside cs ch n = 0 := by
  unfold countOutside
  rw [List.countP_eq_zero]
  intro k hk
  simp [hw k (List.mem_range.mp hk)]

theorem countOutside_one (h : ch ≠ '"') (cs : List Char) (mark : Char) :
    countOutside (ch :: cs) mark 1 = if ch = mark then 1 else 0 := by
  unfold countOutside
  rw [List.range_one, List.countP_singleton, inQuotes_zero h]
  simp

theorem closesAt_zero (h : ch ≠ '"') :
    ClosesAt opener closer inner (ch :: cs) 0 ↔ ch = closer ∧ inner = 0 := by
  constructor
  · rintro ⟨hmark, -, hlevel⟩
    exact ⟨by simpa using hmark, by simpa [countOutside] using hlevel.symm⟩
  · rintro ⟨rfl, rfl⟩
    exact ⟨rfl, inQuotes_zero h cs, rfl⟩

/-- What is passed counts as what it opens and closes. -/
theorem closesAt_append (hw : ∀ k, inQuotes (w ++ cs) (k + w.length) = inQuotes cs k)
    (hlevel : countOutside (w ++ cs) closer w.length + inner' =
      countOutside (w ++ cs) opener w.length + inner) :
    ClosesAt opener closer inner (w ++ cs) (n + w.length) ↔ ClosesAt opener closer inner' cs n := by
  have hchar : (w ++ cs)[n + w.length]? = cs[n]? := by
    rw [List.getElem?_append_right (by omega), Nat.add_sub_cancel]
  constructor
  · rintro ⟨hcloser, hout, hcount⟩
    rw [countOutside_append hw, countOutside_append hw] at hcount
    exact ⟨hchar ▸ hcloser, hw n ▸ hout, by omega⟩
  · rintro ⟨hcloser, hout, hcount⟩
    refine ⟨hchar.trans hcloser, (hw n).trans hout, ?_⟩
    rw [countOutside_append hw, countOutside_append hw]
    omega

/-! ## Reading -/

/-- The cursor moves to the first closing mark that matches, or to the end if there is none. -/
def FindsMatch (opener closer : Char) (inner : Nat) (before cs : List Char) : Prop :=
  ∃ n ≤ cs.length, (between before cs).toBlockEnd [opener] [closer] inner =
      .ok (between (before ++ cs.take n) (cs.drop n)) ∧
    (ClosesAt opener closer inner cs n ∨ n = cs.length) ∧
    ∀ m < n, ¬ClosesAt opener closer inner cs m

/-- Passing what closes nothing leaves the match where it is. -/
theorem FindsMatch.pass (h : FindsMatch opener closer inner' (before ++ w) cs)
    (hstep : (between before (w ++ cs)).toBlockEnd [opener] [closer] inner =
      (between (before ++ w) cs).toBlockEnd [opener] [closer] inner')
    (hw : ∀ k, inQuotes (w ++ cs) (k + w.length) = inQuotes cs k)
    (hlevel : countOutside (w ++ cs) closer w.length + inner' =
      countOutside (w ++ cs) opener w.length + inner)
    (hno : ∀ m < w.length, ¬ClosesAt opener closer inner (w ++ cs) m) :
    FindsMatch opener closer inner before (w ++ cs) := by
  obtain ⟨n, hn, hend, hmatch, hfirst⟩ := h
  refine ⟨n + w.length, ?_, ?_, ?_, ?_⟩
  · rw [List.length_append]
    omega
  · rw [hstep, hend, Nat.add_comm, List.take_length_add_append, List.drop_length_add_append,
      List.append_assoc]
  · rw [closesAt_append hw hlevel, List.length_append]
    exact hmatch.imp_right fun h => by omega
  · intro m hm hcloses
    rcases Nat.lt_or_ge m w.length with hlt | hge
    · exact hno m hlt hcloses
    · obtain ⟨k, rfl⟩ := Nat.exists_eq_add_of_le' hge
      exact hfirst k (by omega) ((closesAt_append hw hlevel).mp hcloses)

theorem FindsMatch.pass_plain (h : FindsMatch opener closer inner' (before ++ [ch]) cs)
    (hstep : (between before (ch :: cs)).toBlockEnd [opener] [closer] inner =
      (between (before ++ [ch]) cs).toBlockEnd [opener] [closer] inner')
    (hq : ch ≠ '"')
    (hlevel : (if ch = closer then 1 else 0) + inner' = (if ch = opener then 1 else 0) + inner)
    (hno : ¬(ch = closer ∧ inner = 0)) : FindsMatch opener closer inner before (ch :: cs) := by
  have hw : '"' ∉ [ch] := by simpa using Ne.symm hq
  refine h.pass (w := [ch]) hstep (inQuotes_append hw cs) ?_ ?_
  · simpa [countOutside_one hq] using hlevel
  · intro m hm
    obtain rfl : m = 0 := by simpa using hm
    exact mt (closesAt_zero hq).mp hno

theorem FindsMatch.pass_phrase (hw : '"' ∉ w) (ho : opener ≠ '"') (hc : closer ≠ '"')
    (h : FindsMatch opener closer inner (before ++ '"' :: (w ++ ['"'])) rest) :
    FindsMatch opener closer inner before ('"' :: (w ++ '"' :: rest)) := by
  have hstep : (between before ('"' :: (w ++ '"' :: rest))).toBlockEnd [opener] [closer] inner =
      (between (before ++ '"' :: (w ++ ['"'])) rest).toBlockEnd [opener] [closer] inner := by
    rw [toBlockEnd_quote ho hc, takeWhile_run (bne_of_notMem hw) (by simp),
      dropWhile_run (bne_of_notMem hw) (by simp), advance_between_cons]
    simp
  have hinside : ∀ k < ('"' :: (w ++ ['"'])).length,
      inQuotes ('"' :: (w ++ '"' :: rest)) k = true := by
    intro k hk
    simp only [List.length_cons, List.length_append, List.length_nil] at hk
    exact inQuotes_phrase_of_le hw rest (by omega)
  have hbehind : ∀ k, inQuotes ('"' :: (w ++ '"' :: rest)) (k + ('"' :: (w ++ ['"'])).length) =
      inQuotes rest k := by
    intro k
    simpa using inQuotes_phrase hw rest k
  have hwhole : '"' :: (w ++ '"' :: rest) = '"' :: (w ++ ['"']) ++ rest := by simp
  rw [hwhole] at hstep hinside hbehind ⊢
  refine h.pass hstep hbehind ?_ ?_
  · rw [countOutside_eq_zero hinside, countOutside_eq_zero hinside]
  · intro m hm hcloses
    exact absurd (hcloses.outside.symm.trans (hinside m hm)) (by simp)

theorem findsMatch_unclosed (hw : '"' ∉ w) (ho : opener ≠ '"') (hc : closer ≠ '"') :
    FindsMatch opener closer inner before ('"' :: w) := by
  have hend : (between before ('"' :: w)).toBlockEnd [opener] [closer] inner =
      .ok (between (before ++ '"' :: w) []) := by
    rw [toBlockEnd_quote ho hc, List.takeWhile_eq_self_iff.mpr (bne_of_notMem hw),
      List.dropWhile_eq_nil_iff.mpr (bne_of_notMem hw), advance_between_nil, toBlockEnd_nil]
  refine ⟨('"' :: w).length, Nat.le_refl _, ?_, .inr rfl, fun m _ h => ?_⟩
  · rw [hend, List.take_length, List.drop_length]
  · exact absurd h.outside (by simp [inQuotes_unclosed hw])

theorem findsMatch (hne : closer ≠ opener) (ho : opener ≠ '"') (hc : closer ≠ '"')
    (inner : Nat) (before cs : List Char) : FindsMatch opener closer inner before cs := by
  induction cs using span_induction generalizing inner before with
  | nil =>
    refine ⟨0, Nat.le_refl 0, ?_, .inr rfl, by simp⟩
    rw [toBlockEnd_nil, List.take_nil, List.append_nil, List.drop_nil]
  | plain ch cs hq ih =>
    by_cases hopen : ch = opener
    · subst hopen
      refine (ih (inner + 1) _).pass_plain (toBlockEnd_opener closer before cs inner) hq ?_ ?_
      · simp [Ne.symm hne, Nat.add_comm]
      · exact fun h => hne h.1.symm
    by_cases hclose : ch = closer
    · subst hclose
      cases inner with
      | zero =>
        refine ⟨0, Nat.zero_le _, ?_, .inl ((closesAt_zero hq).mpr ⟨rfl, rfl⟩), by simp⟩
        rw [toBlockEnd_closer_zero hne]
        simp
      | succ inner =>
        refine (ih inner _).pass_plain (toBlockEnd_closer_succ hne before cs inner) hq ?_ ?_
        · simp [hne, Nat.add_comm]
        · exact fun h => absurd h.2 (by simp)
    · refine (ih inner _).pass_plain (toBlockEnd_other hopen hclose hq before cs inner) hq ?_ ?_
      · simp [hopen, hclose]
      · exact fun h => hclose h.1
  | phrase w rest hw ih => exact FindsMatch.pass_phrase hw ho hc (ih inner _)
  | unclosed w hw => exact findsMatch_unclosed hw ho hc

/-! ## Places in a text -/

/-- At `p` stands the closing mark of the block that is opened at `i`, outside the quoted spans
behind `i`: as many opening as closing marks stand outside them in between. -/
structure MatchesAt (text : List Char) (opener closer : Char) (i p : Nat) : Prop where
  lt : i < p
  mark : text[p]? = some closer
  outside : inQuotes (text.drop (i + 1)) (p - (i + 1)) = false
  level : countOutside (text.drop (i + 1)) opener (p - (i + 1)) =
    countOutside (text.drop (i + 1)) closer (p - (i + 1))

instance (text : List Char) (opener closer : Char) (i p : Nat) :
    Decidable (MatchesAt text opener closer i p) :=
  decidable_of_iff (i < p ∧ text[p]? = some closer ∧
    inQuotes (text.drop (i + 1)) (p - (i + 1)) = false ∧
    countOutside (text.drop (i + 1)) opener (p - (i + 1)) =
      countOutside (text.drop (i + 1)) closer (p - (i + 1)))
    ⟨fun ⟨hlt, hmark, hout, hlevel⟩ => ⟨hlt, hmark, hout, hlevel⟩,
      fun ⟨hlt, hmark, hout, hlevel⟩ => ⟨hlt, hmark, hout, hlevel⟩⟩

theorem matchesAt_iff : MatchesAt text opener closer i (i + 1 + n) ↔
    ClosesAt opener closer 0 (text.drop (i + 1)) n := by
  have hchar : (text.drop (i + 1))[n]? = text[i + 1 + n]? := List.getElem?_drop
  constructor
  · rintro ⟨-, hmark, hout, hlevel⟩
    rw [Nat.add_sub_cancel_left] at hout hlevel
    exact ⟨hchar.trans hmark, hout, hlevel.symm⟩
  · rintro ⟨hmark, hout, hlevel⟩
    refine ⟨by omega, hchar.symm.trans hmark, ?_, ?_⟩
    · rwa [Nat.add_sub_cancel_left]
    · rw [Nat.add_sub_cancel_left]
      exact hlevel.symm

/-- **Matching marks.** The text of a block reaches to the first closing mark that matches, or to
the end of the text if there is none, and the cursor is left there. -/
theorem block_ends_at_match (hi : text[i]? = some opener) (hne : opener ≠ closer)
    (ho : opener ≠ '"') (hc : closer ≠ '"') :
    ∃ p, (⟨text.toArray, i⟩ : Cursor).block [opener] [closer] =
        .ok (text.extract (i + 1) p, ⟨text.toArray, (p : Nat)⟩) ∧
      (MatchesAt text opener closer i p ∧ (∀ m < p, ¬MatchesAt text opener closer i m) ∨
        p = text.length ∧ ∀ m, ¬MatchesAt text opener closer i m) := by
  have hlt := (List.getElem?_eq_some_iff.mp hi).1
  obtain ⟨n, hn, hend, hmatch, hfirst⟩ :=
    findsMatch (Ne.symm hne) ho hc 0 (text.take i ++ [opener]) (text.drop (i + 1))
  have hsplit := List.take_append_drop n (text.drop (i + 1))
  have hlength : ((text.drop (i + 1)).take n).length = n := by
    rw [List.length_take, Nat.min_eq_left hn]
  have hbefore : ∀ m < i + 1 + n, ¬MatchesAt text opener closer i m := by
    intro m hm h
    obtain ⟨k, rfl⟩ := Nat.exists_eq_add_of_le (Nat.succ_le_of_lt h.lt)
    exact hfirst k (by omega) (matchesAt_iff.mp h)
  refine ⟨i + 1 + n, ?_, ?_⟩
  · rw [mk_eq_between hi, block_between hsplit.symm hend, between_take_eq_mk hi hsplit.symm,
      hlength, List.extract_eq_take_drop, Nat.add_sub_cancel_left]
  · refine hmatch.imp (fun h => ⟨matchesAt_iff.mpr h, hbefore⟩) fun h => ?_
    rw [List.length_drop] at h
    refine ⟨by omega, fun m hm => hbefore m ?_ hm⟩
    have := (List.getElem?_eq_some_iff.mp hm.mark).1
    omega

/-- A closing mark in a phrase and that of an inner block are passed. -/
theorem phrase_and_inner_block_passed :
    ∃ text : List Char, text = "x(\"b)\" (c) d) e".toList ∧ text[1]? = some '(' ∧ '(' ≠ ')' ∧
      '(' ≠ '"' ∧ ')' ≠ '"' ∧ (⟨text.toArray, 1⟩ : Cursor).block ['('] [')'] =
        .ok ("\"b)\" (c) d".toList, ⟨text.toArray, 12⟩) := by
  have hi : "x(\"b)\" (c) d) e".toList[1]? = some '(' := by decide
  have hmatch : MatchesAt "x(\"b)\" (c) d) e".toList '(' ')' 1 12 := by decide
  have hfirst : ∀ m < 12, ¬MatchesAt "x(\"b)\" (c) d) e".toList '(' ')' 1 m := by decide
  obtain ⟨p, hblock, h⟩ := block_ends_at_match hi (show '(' ≠ ')' by decide) (by decide) (by decide)
  have hp : p = 12 := by
    rcases h with ⟨hp, hbefore⟩ | ⟨-, hno⟩
    · have hge : ¬p < 12 := fun hlt => hfirst p hlt hp
      have hle : ¬12 < p := fun hlt => hbefore 12 hlt hmatch
      omega
    · exact absurd hmatch (hno 12)
  subst hp
  exact ⟨_, rfl, hi, by decide, by decide, by decide, hblock⟩

end Cursor

end FullText
