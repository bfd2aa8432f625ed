import Mathlib.Data.List.TakeWhile
import FullText.Cursor.Call
import FullText.Proofs.Bounds
import FullText.Proofs.Except

/-!
# Calls one after the other

A call that is answered moves the cursor ahead in its text, unless it gives it a new text or moves
it by a number (`answer_cases`); one that fails does so where it first reads, and leaves the cursor
there (`peek_afterFault`). So a cursor never gets behind the end, whatever is called
(`le_size_runAll`). As long as no call looks or moves back, it stays inside its text, every call is
answered, and one that searches the text stops at the first place that it is to stop at
(`calls_stay_inside`).
-/

namespace FullText

namespace Cursor

variable {c d : Cursor} {p : Char → Bool} {call : Call} {calls : List Call}
  {answer : Option (List Char)} {w rest : List Char} {ch : Char} {f : Fault}

/-! ## Answers -/

/-- A character can be read under the cursor: its position, counted from the end if it is negative,
is in the text or right behind it. -/
structure Legible (c : Cursor) : Prop where
  wide : -Int.pow 2 63 ≤ c.position
  start_le : 0 ≤ c.position + c.text.size
  le_size : c.position ≤ c.text.size

theorem exists_charAt_iff (c : Cursor) (i : Int) :
    (∃ ch, c.charAt i = .ok ch) ↔ -Int.pow 2 63 ≤ i ∧ 0 ≤ i + c.text.size := by
  unfold charAt
  simp only
  by_cases hwide : i < -Int.pow 2 63
  · rw [if_pos hwide]
    exact ⟨fun ⟨_, h⟩ => (nomatch h), fun h => absurd h.1 (by omega)⟩
  rw [if_neg hwide]
  by_cases hstart : i + c.text.size < 0
  · rw [if_pos (by split <;> omega)]
    exact ⟨fun ⟨_, h⟩ => (nomatch h), fun h => absurd h.2 (by omega)⟩
  · rw [if_neg (by split <;> omega)]
    exact ⟨fun _ => ⟨by omega, by omega⟩, fun _ => ⟨_, rfl⟩⟩

theorem Inside.legible (hc : c.Inside) : c.Legible := by
  have hwide : Int.pow 2 63 = 9223372036854775808 := rfl
  have hzero := hc.zero_le
  exact ⟨by omega, by omega, hc.le_size⟩

/-- What moves ahead stays legible, so only the first character may not be there to read. -/
theorem Legible.of_ahead (hc : c.Legible) (h : Ahead c d) : d.Legible := by
  have hstart := hc.start_le
  have hposition := h.position_le
  refine ⟨Int.le_trans hc.wide hposition, ?_, h.le_size⟩
  rw [h.text_eq]
  omega

theorem Legible.advance (hc : c.Legible) : c.advance.Legible := hc.of_ahead (ahead_next hc.le_size)

theorem Legible.exists_peek (hc : c.Legible) {n : Int} (hn : 0 ≤ n) : ∃ ch, c.peek n = .ok ch := by
  have hwide := hc.wide
  have hstart := hc.start_le
  exact (exists_charAt_iff c _).mpr ⟨by omega, by omega⟩

theorem legible_or_error (hc : c.position ≤ c.text.size) : c.Legible ∨ ∃ g, c.peek = .error g := by
  cases hr : c.peek with
  | error g => exact .inr ⟨g, rfl⟩
  | ok ch =>
    obtain ⟨hwide, hstart⟩ := (exists_charAt_iff c _).mp ⟨ch, hr⟩
    rw [Int.add_zero] at hwide hstart
    exact .inl ⟨hwide, hstart, hc⟩

theorem Legible.exists_skipWhile (hc : c.Legible) (p : Char → Bool) :
    ∃ d, c.skipWhile p = .ok d := by
  fun_induction skipWhile p c with
  | case1 => exact ⟨_, rfl⟩
  | case2 c hend f hf =>
    obtain ⟨_, hread⟩ := hc.exists_peek (Int.le_refl 0)
    exact absurd (hf.symm.trans hread) (by simp)
  | case3 _ _ _ _ _ ih => exact ih hc.advance
  | case4 => exact ⟨_, rfl⟩

theorem Legible.exists_readTo (hc : c.Legible) (quote : Char) : ∃ r, c.readTo quote = .ok r := by
  obtain ⟨d, hd⟩ := hc.exists_skipWhile (· != quote)
  unfold readTo
  rw [hd]
  exact ⟨_, rfl⟩

theorem Legible.exists_readDoubled (hc : c.Legible) (quote : Char) :
    ∃ r, c.readDoubled quote = .ok r := by
  fun_induction readDoubled quote c with
  | case1 c f hf =>
    obtain ⟨_, hread⟩ := hc.exists_readTo quote
    exact absurd (hf.symm.trans hread) (by simp)
  | case2 => exact ⟨_, rfl⟩
  | case3 c cs e he hend f hf =>
    -- behind the last quote of the text, NUL is read
    obtain ⟨_, hread⟩ := (hc.of_ahead (ahead_readTo hc.le_size he)).exists_peek (n := 1) (by decide)
    exact absurd (hf.symm.trans hread) (by simp)
  | case4 c cs e he hend f hf hr ih =>
    have hlegible := hc.of_ahead (ahead_readTo hc.le_size he)
    obtain ⟨_, hread⟩ := ih (hlegible.of_ahead (ahead_advance hlegible.le_size (by decide)))
    exact absurd (hf.symm.trans hread) (by simp)
  | case5 => exact ⟨_, rfl⟩
  | case6 => exact ⟨_, rfl⟩

theorem Legible.exists_quoted (hc : c.Legible) (escape : Bool) : ∃ r, c.quoted escape = .ok r := by
  obtain ⟨quote, hquote⟩ := hc.exists_peek (Int.le_refl 0)
  unfold quoted
  rw [hquote]
  cases escape with
  | false => exact hc.advance.exists_readTo quote
  | true => exact hc.advance.exists_readDoubled quote

theorem Legible.exists_toBlockEnd (hc : c.Legible) (opener closer : List Char) (inner : Nat) :
    ∃ d, c.toBlockEnd opener closer inner = .ok d := by
  fun_induction toBlockEnd opener closer inner c with
  | case1 => exact ⟨_, rfl⟩
  | case2 inner c hend f hf =>
    obtain ⟨_, hread⟩ := hc.exists_peek (Int.le_refl 0)
    exact absurd (hf.symm.trans hread) (by simp)
  | case3 _ _ _ _ _ _ ih => exact ih hc.advance
  | case4 => exact ⟨_, rfl⟩
  | case5 _ _ _ _ _ _ _ ih => exact ih hc.advance
  | case6 inner c hend f hf =>
    obtain ⟨_, hread⟩ := hc.exists_quoted false
    exact absurd (hf.symm.trans hread) (by simp)
  | case7 inner c hend cs e he _ _ _ ih =>
    exact ih (hc.of_ahead (ahead_quoted hc.le_size he)).advance
  | case8 _ _ _ _ _ _ _ _ ih => exact ih hc.advance

theorem Legible.exists_block (hc : c.Legible) (opener closer : List Char) :
    ∃ r, c.block opener closer = .ok r := by
  obtain ⟨d, hd⟩ := hc.advance.exists_toBlockEnd opener closer 0
  unfold block
  rw [hd]
  exact ⟨_, rfl⟩

/-- The call neither looks nor moves back. -/
def Call.Forward : Call → Prop
  | .peek ahead => 0 ≤ ahead
  | .advance n => 0 ≤ n
  | _ => True

/-- A cursor that can be read answers every call that does not go back. -/
theorem Legible.exists_answer (hc : c.Legible) (hcall : call.Forward) :
    ∃ r, c.answer call = .ok r := by
  cases call with
  | reset text => exact ⟨_, rfl⟩
  | advance n => exact ⟨_, rfl⟩
  | slice start stop => exact ⟨_, rfl⟩
  | peek ahead => exact Except.exists_map_eq_ok _ (hc.exists_peek hcall)
  | skipBlanks | skipAny chars | findAny chars | findBlank =>
    exact Except.exists_map_eq_ok _ (hc.exists_skipWhile _)
  | quoted escape => exact Except.exists_map_eq_ok _ (hc.exists_quoted escape)
  | block opener closer =>
    exact Except.exists_map_eq_ok _ (hc.exists_block opener.toList closer.toList)

/-! ## Faults -/

theorem peek_of_skipWhile (hc : c.position ≤ c.text.size) (h : c.skipWhile p = .error f) :
    c.peek = .error f := by
  rcases legible_or_error hc with hlegible | ⟨g, hr⟩
  · obtain ⟨_, hskip⟩ := hlegible.exists_skipWhile p
    exact nomatch hskip.symm.trans h
  · rw [skipWhile.eq_def, hr] at h
    split at h
    · exact nomatch h
    · rw [hr, Except.error.inj h]

theorem peek_of_quoted {escape : Bool} (hc : c.position ≤ c.text.size)
    (h : c.quoted escape = .error f) : c.peek = .error f := by
  rcases legible_or_error hc with hlegible | ⟨g, hr⟩
  · obtain ⟨_, hquoted⟩ := hlegible.exists_quoted escape
    exact nomatch hquoted.symm.trans h
  · unfold quoted at h
    rw [hr] at h
    rw [hr, Except.error.inj h]

theorem peek_of_toBlockEnd {opener closer : List Char} {inner : Nat}
    (hc : c.position ≤ c.text.size) (h : c.toBlockEnd opener closer inner = .error f) :
    c.peek = .error f := by
  rcases legible_or_error hc with hlegible | ⟨g, hr⟩
  · obtain ⟨_, hblock⟩ := hlegible.exists_toBlockEnd opener closer inner
    exact nomatch hblock.symm.trans h
  · rw [toBlockEnd.eq_def, hr] at h
    split at h
    · exact nomatch h
    · rw [hr, Except.error.inj h]

/-- A call that fails leaves the cursor where it could not be read. -/
theorem peek_afterFault (hc : c.position ≤ c.text.size) (h : c.answer call = .error f) :
    (∃ n, call = .peek n ∧ (c.afterFault call).peek n = .error f) ∨
      (c.afterFault call).peek = .error f := by
  cases call with
  | reset text => exact nomatch h
  | advance n => exact nomatch h
  | slice start stop => exact nomatch h
  | peek n => exact .inl ⟨n, rfl, Except.map_eq_error_iff.mp h⟩
  | skipBlanks | skipAny chars | findAny chars | findBlank =>
    exact .inr (peek_of_skipWhile hc (Except.map_eq_error_iff.mp h))
  | quoted escape => exact .inr (peek_of_quoted hc (Except.map_eq_error_iff.mp h))
  | block opener closer =>
    have hblock := Except.map_eq_error_iff.mp h
    unfold block at hblock
    split at hblock
    · next g hg =>
      obtain rfl := Except.error.inj hblock
      exact .inr (peek_of_toBlockEnd (ahead_next hc).le_size hg)
    · exact nomatch hblock

/-! ## Moves -/

/-- Where a call that is answered leaves a cursor that is not behind the end. -/
theorem answer_cases (hc : c.position ≤ c.text.size) (h : c.answer call = .ok (answer, d)) :
    (∃ text, call = .reset text ∧ d = ofString text) ∨
      (∃ n, call = .advance n ∧ d = c.advance n) ∨ Ahead c d := by
  cases call with
  | reset text => exact .inl ⟨text, rfl, (Prod.mk.inj (Except.ok.inj h)).2.symm⟩
  | advance n => exact .inr (.inl ⟨n, rfl, (Prod.mk.inj (Except.ok.inj h)).2.symm⟩)
  | slice start stop =>
    obtain ⟨-, rfl⟩ := Prod.mk.inj (Except.ok.inj h)
    exact .inr (.inr (ahead_refl hc))
  | peek ahead =>
    obtain ⟨ch, -, hd⟩ := Except.map_eq_ok_iff.mp h
    obtain ⟨-, rfl⟩ := Prod.mk.inj hd
    exact .inr (.inr (ahead_refl hc))
  | skipBlanks | skipAny chars | findAny chars | findBlank =>
    obtain ⟨e, he, hd⟩ := Except.map_eq_ok_iff.mp h
    obtain ⟨-, rfl⟩ := Prod.mk.inj hd
    exact .inr (.inr (ahead_skipWhile hc he))
  | quoted escape =>
    obtain ⟨⟨cs, e⟩, he, hd⟩ := Except.map_eq_ok_iff.mp h
    obtain ⟨-, rfl⟩ := Prod.mk.inj hd
    exact .inr (.inr (ahead_quoted hc he))
  | block opener closer =>
    obtain ⟨⟨cs, e⟩, he, hd⟩ := Except.map_eq_ok_iff.mp h
    obtain ⟨-, rfl⟩ := Prod.mk.inj hd
    exact .inr (.inr (ahead_block hc he))

theorem le_size_advance (c : Cursor) (n : Int) : (c.advance n).position ≤ (c.advance n).text.size :=
  Int.min_le_right _ _

theorem le_size_run (hc : c.position ≤ c.text.size) (call : Call) :
    (c.run call).2.position ≤ (c.run call).2.text.size := by
  unfold run
  split
  · next answer d h =>
    rcases answer_cases hc h with ⟨text, -, rfl⟩ | ⟨n, -, rfl⟩ | hd
    · exact (inside_ofChars _).le_size
    · exact le_size_advance c n
    · exact hd.le_size
  · unfold afterFault
    split
    · exact le_size_advance c 1
    · exact hc

/-! ## Searches -/

/-- From `start` on, `stop` is the first place at which the condition holds, or the end of the text
if there is none. -/
structure FirstAt (p : Char → Bool) (text : Array Char) (start stop : Nat) : Prop where
  start_le : start ≤ stop
  le_size : stop ≤ text.size
  passed : ∀ k, start ≤ k → k < stop → ∀ ch ∈ text[k]?, p ch = false
  holds : stop = text.size ∨ ∃ ch ∈ text[stop]?, p ch = true

theorem FirstAt.le {start stop stop' : Nat} {text : Array Char} (h : FirstAt p text start stop)
    (h' : FirstAt p text start stop') : stop ≤ stop' := by
  by_contra hlt
  rcases h'.holds with hend | ⟨ch, hch, hp⟩
  · exact hlt (hend ▸ h.le_size)
  · exact absurd (h.passed stop' h'.start_le (by omega) ch hch) (by simp [hp])

/-- There is only one such place. -/
theorem FirstAt.unique {start stop stop' : Nat} {text : Array Char} (h : FirstAt p text start stop)
    (h' : FirstAt p text start stop') : stop = stop' :=
  Nat.le_antisymm (h.le h') (h'.le h)

theorem firstAt_append (hw : ∀ ch ∈ w, p ch = false) (hrest : ∀ ch ∈ rest.head?, p ch = true)
    (before : List Char) :
    FirstAt p (before ++ (w ++ rest)).toArray before.length (before ++ w).length where
  start_le := by
    rw [List.length_append]
    exact Nat.le_add_right _ _
  le_size := by
    simp only [List.size_toArray, List.length_append]
    omega
  passed := by
    intro k hk hlt ch hch
    rw [List.length_append] at hlt
    rw [List.getElem?_toArray, List.getElem?_append_right hk,
      List.getElem?_append_left (by omega)] at hch
    exact hw ch (List.mem_of_getElem? hch)
  holds := by
    cases rest with
    | nil => exact .inl (by rw [List.append_nil, List.size_toArray])
    | cons ch rest =>
      refine .inr ⟨ch, ?_, hrest ch rfl⟩
      rw [List.getElem?_toArray, ← List.append_assoc, List.getElem?_append_right (Nat.le_refl _),
        Nat.sub_self]
      rfl

theorem Inside.exists_between (hc : c.Inside) : ∃ before after, c = between before after := by
  obtain ⟨text, position⟩ := c
  obtain ⟨n, rfl⟩ := Int.eq_ofNat_of_zero_le hc.zero_le
  have hn : n ≤ text.toList.length := by simpa using Int.ofNat_le.mp hc.le_size
  refine ⟨text.toList.take n, text.toList.drop n, ?_⟩
  rw [between_eq_mk (List.take_append_drop n _), List.length_take, Nat.min_eq_left hn]

/-- Skipping what does not satisfy the condition leads to the first place that does. -/
theorem Inside.firstAt_skipWhile (hc : c.Inside) (h : c.skipWhile (fun ch => !p ch) = .ok d) :
    FirstAt p c.text c.position.toNat d.position.toNat := by
  obtain ⟨before, cs, rfl⟩ := hc.exists_between
  rw [skipWhile_between] at h
  obtain rfl := Except.ok.inj h
  have hw : ∀ ch ∈ cs.takeWhile (fun ch => !p ch), p ch = false := by
    intro ch hch
    simpa using List.mem_takeWhile_imp hch
  have hrest : ∀ ch ∈ (cs.dropWhile fun ch => !p ch).head?, p ch = true := by
    intro ch hch
    have := List.head?_dropWhile_not (fun ch => !p ch) cs
    rw [Option.mem_def.mp hch] at this
    simpa using this
  have hfirst := firstAt_append hw hrest before
  rwa [List.takeWhile_append_dropWhile] at hfirst

/-- What the call looks for, if it searches the text. -/
def Call.stop? : Call → Option (Char → Bool)
  | .skipBlanks => some fun ch => !Text.isBlank ch
  | .skipAny chars => some fun ch => !chars.toList.contains ch
  | .findAny chars => some fun ch => chars.toList.contains ch
  | .findBlank => some Text.isBlank
  | _ => none

theorem answer_of_stop? (c : Cursor) (h : call.stop? = some p) :
    c.answer call = (none, ·) <$> c.skipWhile fun ch => !p ch := by
  cases call with
  | skipBlanks | skipAny chars =>
    obtain rfl := Option.some.inj h
    simp only [Bool.not_not]
    rfl
  | findAny chars | findBlank =>
    obtain rfl := Option.some.inj h
    rfl
  | _ => exact nomatch h

/-! ## Sequences -/

/-- The call leads from `c` to `d`, inside the text: ahead in the same text unless it gives a new
one, and to the first place that it searches for. -/
structure MovesOn (c : Cursor) (call : Call) (d : Cursor) : Prop where
  inside : d.Inside
  ahead : (∀ text, call ≠ .reset text) → Ahead c d
  finds : ∀ p, call.stop? = some p → FirstAt p c.text c.position.toNat d.position.toNat

theorem Inside.movesOn (hc : c.Inside) (hcall : call.Forward)
    (h : c.answer call = .ok (answer, d)) : MovesOn c call d := by
  have hfinds : ∀ p, call.stop? = some p → FirstAt p c.text c.position.toNat d.position.toNat := by
    intro p hp
    obtain ⟨e, he, hd⟩ := Except.map_eq_ok_iff.mp ((answer_of_stop? c hp).symm.trans h)
    obtain ⟨-, rfl⟩ := Prod.mk.inj hd
    exact hc.firstAt_skipWhile he
  rcases answer_cases hc.le_size h with ⟨text, rfl, rfl⟩ | ⟨n, rfl, rfl⟩ | hd
  · exact ⟨inside_ofChars _, fun hne => absurd rfl (hne text), hfinds⟩
  · have hd := ahead_advance hc.le_size hcall
    exact ⟨hd.inside hc, fun _ => hd, hfinds⟩
  · exact ⟨hd.inside hc, fun _ => hd, hfinds⟩

theorem Inside.run (hc : c.Inside) (hcall : call.Forward) :
    ∃ answer d, c.run call = (.ok answer, d) ∧ MovesOn c call d := by
  obtain ⟨⟨answer, d⟩, h⟩ := hc.legible.exists_answer hcall
  refine ⟨answer, d, ?_, hc.movesOn hcall h⟩
  unfold Cursor.run
  rw [h]

theorem Inside.runAll (hc : c.Inside) (h : ∀ call ∈ calls, call.Forward) :
    (c.runAll calls).Inside := by
  apply List.foldlRecOn calls _ hc
  intro d hd call hcall
  obtain ⟨answer, e, hrun, hmoves⟩ := hd.run (h call hcall)
  rw [hrun]
  exact hmoves.inside

theorem le_size_runAll (hc : c.position ≤ c.text.size) (calls : List Call) :
    (c.runAll calls).position ≤ (c.runAll calls).text.size := by
  apply List.foldlRecOn (motive := fun d : Cursor => d.position ≤ d.text.size) calls _ hc
  intro d hd call _
  exact le_size_run hd call

/-- **A cursor stays in its text.** However it is called, it never gets behind the end. If no call
goes back, then every call is answered and moves the cursor on inside the text. -/
theorem calls_stay_inside (text : String) (calls : List Call) :
    ((∀ call ∈ calls, call.Forward) → ∀ before call after, calls = before ++ call :: after →
      ∃ answer d, ((ofString text).runAll before).run call = (.ok answer, d) ∧
        MovesOn ((ofString text).runAll before) call d) ∧
    ∀ before after, calls = before ++ after →
      ((ofString text).runAll before).position ≤ ((ofString text).runAll before).text.size := by
  have hstart : (ofString text).Inside := inside_ofChars text.toList
  constructor
  · rintro hcalls before call after rfl
    obtain ⟨hbefore, hrest⟩ := List.forall_mem_append.mp hcalls
    exact (hstart.runAll hbefore).run (hrest call List.mem_cons_self)
  · intro before after _
    exact le_size_runAll hstart.le_size before

/-- NUL in the text is found there, though the text also seems to go on with it behind its end. -/
theorem nul_found_in_text :
    (∀ call ∈ [Call.advance 1, .findAny "\x00", .peek 9], call.Forward) ∧
      ∃ answer d, ((ofString "ab\x00c").runAll [.advance 1]).run (.findAny "\x00") =
        (.ok answer, d) ∧ d.position = 2 := by
  have hcalls : ∀ call ∈ [Call.advance 1, .findAny "\x00", .peek 9], call.Forward := by
    simp [Call.Forward]
  obtain ⟨answer, d, hrun, hmoves⟩ :=
    (calls_stay_inside "ab\x00c" _).1 hcalls [.advance 1] (.findAny "\x00") [.peek 9] rfl
  have hfirst : FirstAt (fun ch => "\x00".toList.contains ch) "ab\x00c".toList.toArray 1 2 := by
    refine ⟨by decide, by decide, ?_, .inr ⟨'\x00', rfl, by decide⟩⟩
    intro k hk hlt ch hch
    obtain rfl : k = 1 := by omega
    obtain rfl := Option.some.inj hch
    decide
  have hstop := FirstAt.unique (hmoves.finds _ rfl) hfirst
  have hnonneg := hmoves.inside.zero_le
  exact ⟨hcalls, answer, d, hrun, by omega⟩

end Cursor

end FullText
