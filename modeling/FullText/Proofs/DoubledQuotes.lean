import Mathlib.Data.List.TakeWhile
import FullText.Proofs.Between
import FullText.Proofs.Runs

/-!
# Doubled quotes

A quoted text in which each quote is written twice ends at the first quote that has none behind it.
There is only one way to read it so (`doubled_append_inj`), and that is how it is read
(`readDoubled_between`): what is read, doubled, is what stands between the quotes
(`doubled_quotes_decoded`).
-/

namespace FullText

namespace Cursor

variable {quote ch : Char} {cs ds rest rest' text : List Char} {i p : Nat}

/-- The text with each quote written twice. -/
def doubled (quote : Char) (cs : List Char) : List Char :=
  cs.flatMap fun ch => if ch = quote then [quote, quote] else [ch]

@[simp] theorem doubled_nil (quote : Char) : doubled quote [] = [] := rfl

@[simp] theorem doubled_cons_self (quote : Char) (cs : List Char) :
    doubled quote (quote :: cs) = quote :: quote :: doubled quote cs := by
  simp [doubled]

theorem doubled_cons_of_ne (h : ch ≠ quote) (cs : List Char) :
    doubled quote (ch :: cs) = ch :: doubled quote cs := by
  simp [doubled, h]

@[simp] theorem doubled_append (quote : Char) (cs ds : List Char) :
    doubled quote (cs ++ ds) = doubled quote cs ++ doubled quote ds := by
  simp [doubled]

theorem doubled_of_notMem (h : quote ∉ cs) : doubled quote cs = cs := by
  induction cs with
  | nil => rfl
  | cons ch cs ih =>
    obtain ⟨hch, hcs⟩ := not_or.mp (mt List.mem_cons.mpr h)
    rw [doubled_cons_of_ne (Ne.symm hch), ih hcs]

/-- A quoted text ends in front of `rest`: at the end of the text, or at a quote with none behind
it. -/
def EndsQuoted (quote : Char) (rest : List Char) : Prop :=
  rest = [] ∨ rest[0]? = some quote ∧ rest[1]? ≠ some quote

theorem endsQuoted_nil (quote : Char) : EndsQuoted quote [] := .inl rfl

theorem endsQuoted_cons : EndsQuoted quote (ch :: rest) ↔ ch = quote ∧ rest.head? ≠ some quote := by
  simp [EndsQuoted, List.head?_eq_getElem?]

/-- Where quotes come in pairs, none of them ends the text. -/
theorem not_endsQuoted_doubled (ch : Char) (cs rest : List Char) :
    ¬EndsQuoted quote (doubled quote (ch :: cs) ++ rest) := by
  intro h
  by_cases hch : ch = quote
  · subst hch
    rw [doubled_cons_self] at h
    exact (endsQuoted_cons.mp h).2 rfl
  · rw [doubled_cons_of_ne hch] at h
    exact hch (endsQuoted_cons.mp h).1

/-- **One reading.** A text starts in one way at most with doubled quotes in front of its end. -/
theorem doubled_append_inj (h : EndsQuoted quote rest) (h' : EndsQuoted quote rest')
    (heq : doubled quote cs ++ rest = doubled quote ds ++ rest') : cs = ds ∧ rest = rest' := by
  induction cs generalizing ds with
  | nil =>
    cases ds with
    | nil => exact ⟨rfl, heq⟩
    | cons d ds =>
      rw [doubled_nil, List.nil_append] at heq
      exact absurd (heq ▸ h) (not_endsQuoted_doubled d ds rest')
  | cons c cs ih =>
    cases ds with
    | nil =>
      rw [doubled_nil, List.nil_append] at heq
      exact absurd (heq ▸ h') (not_endsQuoted_doubled c cs rest)
    | cons d ds =>
      -- equal characters are both doubled or both not
      have hcd : c = d ∧ doubled quote cs ++ rest = doubled quote ds ++ rest' := by
        by_cases hc : c = quote <;> by_cases hd : d = quote
        · subst hc hd
          simpa using heq
        · subst hc
          rw [doubled_cons_self, doubled_cons_of_ne hd] at heq
          exact absurd (List.cons.inj heq).1 (Ne.symm hd)
        · subst hd
          rw [doubled_cons_self, doubled_cons_of_ne hc] at heq
          exact absurd (List.cons.inj heq).1 hc
        · rw [doubled_cons_of_ne hc, doubled_cons_of_ne hd] at heq
          exact List.cons.inj heq
      obtain ⟨rfl, hrest⟩ := hcd
      obtain ⟨rfl, rfl⟩ := ih hrest
      exact ⟨rfl, rfl⟩

/-! ## Reading -/

theorem peek_one_between (before rest : List Char) (ch : Char) :
    (between before (ch :: rest)).peek 1 = .ok (rest.headD '\x00') := by
  have hindex : (between before (ch :: rest)).position + 1 = ((before.length + 1 : Nat) : Int) := by
    rw [position_between]
    omega
  unfold peek
  rw [hindex, charAt_natCast]
  cases rest <;> simp [between]

theorem advance_two_between (before rest : List Char) (ch ch' : Char) :
    (between before (ch :: ch' :: rest)).advance 2 = between (before ++ [ch, ch']) rest := by
  simp only [between, advance, mk.injEq, List.size_toArray, List.length_append, List.length_cons]
  refine ⟨by simp, ?_⟩
  simp only [List.length_nil]
  omega

theorem readDoubled_of_readTo {c d : Cursor} (h : c.readTo quote = .ok (cs, d)) :
    c.readDoubled quote =
      if d.atEnd then .ok (cs, d)
      else
        match d.peek 1 with
        | .error f => .error f
        | .ok ch =>
          if ch = quote then
            match readDoubled quote (d.advance 2) with
            | .error f => .error f
            | .ok (rest, e) => .ok (cs ++ quote :: rest, e)
          else .ok (cs, d) := by
  rw [readDoubled.eq_def]
  split
  · next hread =>
    rw [h] at hread
    exact absurd hread (by simp)
  · next hread =>
    rw [h] at hread
    obtain ⟨rfl, rfl⟩ := Prod.mk.inj (Except.ok.inj hread)
    rfl

/-- What is read ends at the first end there is. NUL as the quote is left out, since the text seems
to go on with it. -/
theorem readDoubled_between (hq : quote ≠ '\x00') (before cs : List Char) :
    ∃ r rest, cs = doubled quote r ++ rest ∧ EndsQuoted quote rest ∧
      (between before cs).readDoubled quote =
        .ok (r, between (before ++ doubled quote r) rest) := by
  induction hn : cs.length using Nat.strongRecOn generalizing before cs with
  | ind n ih =>
    rw [readDoubled_of_readTo (readTo_between quote before cs)]
    by_cases hmem : quote ∈ cs
    · obtain ⟨w, rest, rfl, hw⟩ := List.eq_append_cons_of_mem hmem
      rw [takeWhile_run (bne_of_notMem hw) (by simp), dropWhile_run (bne_of_notMem hw) (by simp),
        atEnd_between_cons, if_neg (by simp), peek_one_between]
      have hwhole (rest : List Char) : w ++ rest = doubled quote w ++ rest := by
        rw [doubled_of_notMem hw]
      cases rest with
      | nil =>
        refine ⟨w, [quote], hwhole _, endsQuoted_cons.mpr ⟨rfl, by simp⟩, ?_⟩
        simp [Ne.symm hq, doubled_of_notMem hw]
      | cons next rest =>
        by_cases hnext : next = quote
        · subst hnext
          rw [List.length_append, List.length_cons, List.length_cons] at hn
          obtain ⟨r, behind, rfl, hends, hread⟩ :=
            ih rest.length (by omega) (before ++ w ++ [next, next]) rest rfl
          refine ⟨w ++ next :: r, behind, ?_, hends, ?_⟩
          · rw [doubled_append, doubled_of_notMem hw, doubled_cons_self]
            simp
          · simp only [List.headD_cons, if_true, advance_two_between, hread]
            simp [doubled_of_notMem hw]
        · refine ⟨w, quote :: next :: rest, hwhole _,
            endsQuoted_cons.mpr ⟨rfl, by simpa using hnext⟩, ?_⟩
          simp [hnext, doubled_of_notMem hw]
    · rw [List.takeWhile_eq_self_iff.mpr (bne_of_notMem hmem),
        List.dropWhile_eq_nil_iff.mpr (bne_of_notMem hmem)]
      refine ⟨cs, [], by rw [doubled_of_notMem hmem, List.append_nil], endsQuoted_nil quote, ?_⟩
      rw [atEnd_between_nil, if_pos rfl, doubled_of_notMem hmem]

/-! ## Places in a text -/

/-- Between the quote at `i` and the end of the quoted text at `p` stands `r`, with its quotes
doubled. -/
structure QuotedText (text : List Char) (i : Nat) (quote : Char) (r : List Char) (p : Nat) :
    Prop where
  lt : i < p
  le : p ≤ text.length
  between : text.extract (i + 1) p = doubled quote r
  ends : p = text.length ∨ text[p]? = some quote ∧ text[p + 1]? ≠ some quote

theorem endsQuoted_drop (h : p ≤ text.length) : EndsQuoted quote (text.drop p) ↔
    p = text.length ∨ text[p]? = some quote ∧ text[p + 1]? ≠ some quote := by
  have hend : text.drop p = [] ↔ p = text.length := by
    rw [List.drop_eq_nil_iff]
    omega
  simp [EndsQuoted, hend]

theorem quotedText_iff (hi : i < text.length) : QuotedText text i quote cs p ↔
    ∃ rest, text.drop (i + 1) = doubled quote cs ++ rest ∧ EndsQuoted quote rest ∧
      p = i + 1 + (doubled quote cs).length := by
  constructor
  · rintro ⟨hlt, hle, hbetween, hends⟩
    refine ⟨text.drop p, ?_, (endsQuoted_drop hle).mpr hends, ?_⟩
    · have hsplit := List.take_append_drop (p - (i + 1)) (text.drop (i + 1))
      rw [List.drop_drop, Nat.add_sub_cancel' hlt] at hsplit
      rw [← hbetween, List.extract_eq_take_drop, hsplit]
    · rw [← hbetween, List.extract_eq_take_drop, List.length_take, List.length_drop]
      omega
  · rintro ⟨rest, htext, hends, rfl⟩
    have hlen := congrArg List.length htext
    rw [List.length_drop, List.length_append] at hlen
    have hrest : text.drop (i + 1 + (doubled quote cs).length) = rest := by
      rw [← List.drop_drop, htext, List.drop_left]
    have hle : i + 1 + (doubled quote cs).length ≤ text.length := by omega
    refine ⟨by omega, hle, ?_, ?_⟩
    · rw [List.extract_eq_take_drop, htext, Nat.add_sub_cancel_left, List.take_left]
    · exact (endsQuoted_drop hle).mp (hrest ▸ hends)

/-- **Doubled quotes.** The text read from a quote, and the place where that ends, are the only ones
that fit: the text with its quotes doubled is what stands up to there. So what is written with its
quotes doubled is read back, whatever comes behind the closing quote. -/
theorem doubled_quotes_decoded (hi : text[i]? = some quote) (hq : quote ≠ '\x00') :
    (∃ r p, (⟨text.toArray, i⟩ : Cursor).quoted true = .ok (r, ⟨text.toArray, (p : Nat)⟩) ∧
      ∀ r' p', QuotedText text i quote r' p' ↔ r' = r ∧ p' = p) ∧
    ∀ s tail, tail.head? ≠ some quote →
      (ofChars (quote :: (doubled quote s ++ quote :: tail))).quoted true =
        .ok (s, between (quote :: doubled quote s) (quote :: tail)) := by
  have hquoted (before cs : List Char) : (between before (quote :: cs)).quoted true =
      (between (before ++ [quote]) cs).readDoubled quote := by
    unfold quoted
    rw [peek_between_cons, advance_between_cons]
    rfl
  constructor
  · have hlt := (List.getElem?_eq_some_iff.mp hi).1
    obtain ⟨r, rest, htext, hends, hread⟩ :=
      readDoubled_between hq (text.take i ++ [quote]) (text.drop (i + 1))
    refine ⟨r, i + 1 + (doubled quote r).length, ?_, fun r' p' => ?_⟩
    · rw [mk_eq_between hi, hquoted, hread, between_take_eq_mk hi htext]
    · rw [quotedText_iff hlt]
      constructor
      · rintro ⟨rest', htext', hends', rfl⟩
        obtain ⟨rfl, rfl⟩ := doubled_append_inj hends hends' (htext.symm.trans htext')
        exact ⟨rfl, rfl⟩
      · rintro ⟨rfl, rfl⟩
        exact ⟨rest, htext, hends, rfl⟩
  · intro s tail htail
    obtain ⟨r, rest, htext, hends, hread⟩ :=
      readDoubled_between hq [quote] (doubled quote s ++ quote :: tail)
    have htail' : EndsQuoted quote (quote :: tail) := endsQuoted_cons.mpr ⟨rfl, htail⟩
    obtain ⟨rfl, rfl⟩ := doubled_append_inj htail' hends htext
    rw [ofChars_eq_between, hquoted]
    exact hread

/-- An even run of quotes belongs to the text, and the last one of an odd run ends it. -/
theorem runs_of_quotes_decoded :
    "x|a||b|||".toList[1]? = some '|' ∧ '|' ≠ '\x00' ∧
      (⟨"x|a||b|||".toList.toArray, 1⟩ : Cursor).quoted true =
        .ok ("a|b|".toList, ⟨"x|a||b|||".toList.toArray, 8⟩) ∧
      "c|".toList.head? ≠ some '|' ∧
      (ofChars ('|' :: (doubled '|' "|".toList ++ '|' :: "c|".toList))).quoted true =
        .ok ("|".toList, between "|||".toList "|c|".toList) := by
  have hi : "x|a||b|||".toList[1]? = some '|' := by decide
  obtain ⟨⟨r, p, hread, honly⟩, hback⟩ := doubled_quotes_decoded hi (by decide)
  have hquoted : QuotedText "x|a||b|||".toList 1 '|' "a|b|".toList 8 :=
    ⟨by decide, by decide, by decide, by decide⟩
  obtain ⟨rfl, rfl⟩ := (honly _ _).mp hquoted
  exact ⟨hi, by decide, hread, by decide, hback "|".toList "c|".toList (by decide)⟩

end Cursor

end FullText
