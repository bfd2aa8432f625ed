import FullText.Cursor.Basic

/-!
# Cursors between two texts

`Cursor.between before after` is the cursor in `before ++ after` with `after` ahead of it. Where a
position lies within its text, the reading operations are those of lists: skipping is `dropWhile`
(`skipWhile_between`), and a phrase reaches to the next quote (`readTo_between`).
-/

namespace FullText

namespace Cursor

variable {before after cs ds : List Char} {ch : Char}

/-- The cursor behind `before` and in front of `after`. -/
def between (before after : List Char) : Cursor := ⟨(before ++ after).toArray, before.length⟩

theorem ofChars_eq_between (cs : List Char) : ofChars cs = between [] cs := rfl

theorem take_append_cons_drop {text : List Char} {i : Nat} (h : text[i]? = some ch) :
    text.take i ++ ch :: text.drop (i + 1) = text := by
  obtain ⟨hi, rfl⟩ := List.getElem?_eq_some_iff.mp h
  rw [← List.drop_eq_getElem_cons hi, List.take_append_drop]

/-- A cursor at an index of a text. -/
theorem between_eq_mk {text : List Char} (h : before ++ after = text) :
    between before after = ⟨text.toArray, before.length⟩ := by
  rw [← h]
  rfl

theorem mk_eq_between {text : List Char} {i : Nat} (h : text[i]? = some ch) :
    (⟨text.toArray, i⟩ : Cursor) = between (text.take i) (ch :: text.drop (i + 1)) := by
  have hi := (List.getElem?_eq_some_iff.mp h).1
  rw [between_eq_mk (take_append_cons_drop h), List.length_take, Nat.min_eq_left (Nat.le_of_lt hi)]

/-- A cursor behind some of what follows an index of a text. -/
theorem between_take_eq_mk {text w rest : List Char} {i : Nat} (h : text[i]? = some ch)
    (hrest : text.drop (i + 1) = w ++ rest) :
    between (text.take i ++ [ch] ++ w) rest = ⟨text.toArray, (i + 1 + w.length : Nat)⟩ := by
  have hi := (List.getElem?_eq_some_iff.mp h).1
  have hwhole : text.take i ++ [ch] ++ w ++ rest = text := by
    rw [List.append_assoc, ← hrest, List.append_assoc, List.singleton_append,
      take_append_cons_drop h]
  rw [between_eq_mk hwhole, List.length_append, List.length_append, List.length_take,
    List.length_singleton, Nat.min_eq_left (Nat.le_of_lt hi)]

theorem charAt_natCast (c : Cursor) (n : Nat) : c.charAt n = .ok (c.text.getD n '\x00') := by
  have hwide : Int.pow 2 63 = 9223372036854775808 := rfl
  unfold charAt
  rw [if_neg (by omega : ¬ (n : Int) < 0)]
  simp only
  rw [if_neg (by omega), if_neg (by omega)]
  rfl

theorem bound_natCast (c : Cursor) (n : Nat) : c.bound n = n := by
  unfold bound
  rw [if_neg (by omega)]
  rfl

@[simp] theorem position_between (before after : List Char) :
    (between before after).position = before.length := rfl

theorem atEnd_between (before after : List Char) :
    (between before after).atEnd = after.isEmpty := by
  cases after with
  | nil => simp [between, atEnd]
  | cons ch after =>
    show decide (((before ++ ch :: after).toArray.size : Int) ≤ before.length) = false
    rw [decide_eq_false_iff_not, List.size_toArray, List.length_append, List.length_cons]
    omega

@[simp] theorem atEnd_between_nil (before : List Char) : (between before []).atEnd = true :=
  atEnd_between before []

@[simp] theorem atEnd_between_cons (before after : List Char) (ch : Char) :
    (between before (ch :: after)).atEnd = false :=
  atEnd_between before (ch :: after)

theorem peek_between (before after : List Char) :
    (between before after).peek = .ok (after.headD '\x00') := by
  unfold peek
  rw [position_between, Int.add_zero, charAt_natCast]
  cases after <;> simp [between]

@[simp] theorem peek_between_cons (before after : List Char) (ch : Char) :
    (between before (ch :: after)).peek = .ok ch := peek_between before (ch :: after)

@[simp] theorem peek_between_nil (before : List Char) :
    (between before []).peek = .ok '\x00' := peek_between before []

@[simp] theorem advance_between_cons (before after : List Char) (ch : Char) :
    (between before (ch :: after)).advance = between (before ++ [ch]) after := by
  simp only [between, advance, mk.injEq, List.size_toArray, List.length_append, List.length_cons]
  refine ⟨by simp, ?_⟩
  simp only [List.length_nil]
  omega

@[simp] theorem advance_between_nil (before : List Char) :
    (between before []).advance = between before [] := by
  simp only [between, advance, mk.injEq, List.append_nil, List.size_toArray, true_and]
  omega

/-- What a cursor passes is what lies between its two positions. -/
theorem slice_between (before cs after : List Char) :
    (between before (cs ++ after)).slice before.length (before ++ cs).length = cs := by
  unfold slice
  rw [bound_natCast, bound_natCast]
  simp [between]

/-! ## Skipping -/

theorem skipWhile_between (p : Char → Bool) (before cs : List Char) :
    (between before cs).skipWhile p =
      .ok (between (before ++ cs.takeWhile p) (cs.dropWhile p)) := by
  induction cs generalizing before with
  | nil => rw [skipWhile_of_atEnd (by simp)]; simp
  | cons ch cs ih =>
    rw [skipWhile, atEnd_between_cons, peek_between_cons]
    by_cases hp : p ch = true
    · simp [hp, ih]
    · simp [hp]

/-! ## Quotes -/

theorem readTo_between (quote : Char) (before cs : List Char) :
    (between before cs).readTo quote =
      .ok (cs.takeWhile (· != quote),
        between (before ++ cs.takeWhile (· != quote)) (cs.dropWhile (· != quote))) := by
  unfold readTo
  rw [skipWhile_between]
  have := slice_between before (cs.takeWhile (· != quote)) (cs.dropWhile (· != quote))
  rw [List.takeWhile_append_dropWhile] at this
  simp only [position_between]
  rw [this]

theorem quoted_between (quote : Char) (before cs : List Char) :
    (between before (quote :: cs)).quoted =
      .ok (cs.takeWhile (· != quote),
        between (before ++ quote :: cs.takeWhile (· != quote)) (cs.dropWhile (· != quote))) := by
  unfold quoted
  rw [peek_between_cons, advance_between_cons]
  simp only [Bool.false_eq_true, if_false]
  rw [readTo_between]
  simp

/-! ## Blocks -/

section Blocks

variable {opener closer : Char}

theorem toBlockEnd_nil (opener closer before : List Char) (inner : Nat) :
    (between before []).toBlockEnd opener closer inner = .ok (between before []) := by
  rw [toBlockEnd.eq_def, atEnd_between_nil, if_pos rfl]

theorem toBlockEnd_opener (closer : Char) (before cs : List Char) (inner : Nat) :
    (between before (opener :: cs)).toBlockEnd [opener] [closer] inner =
      (between (before ++ [opener]) cs).toBlockEnd [opener] [closer] (inner + 1) := by
  rw [toBlockEnd.eq_def, atEnd_between_cons, peek_between_cons, advance_between_cons]
  simp

theorem toBlockEnd_closer_zero (h : closer ≠ opener) (before cs : List Char) :
    (between before (closer :: cs)).toBlockEnd [opener] [closer] 0 =
      .ok (between before (closer :: cs)) := by
  rw [toBlockEnd.eq_def, atEnd_between_cons, peek_between_cons]
  simp [h]

theorem toBlockEnd_closer_succ (h : closer ≠ opener) (before cs : List Char) (inner : Nat) :
    (between before (closer :: cs)).toBlockEnd [opener] [closer] (inner + 1) =
      (between (before ++ [closer]) cs).toBlockEnd [opener] [closer] inner := by
  rw [toBlockEnd.eq_def, atEnd_between_cons, peek_between_cons, advance_between_cons]
  simp [h]

theorem toBlockEnd_quote (ho : opener ≠ '"') (hc : closer ≠ '"') (before cs : List Char)
    (inner : Nat) :
    (between before ('"' :: cs)).toBlockEnd [opener] [closer] inner =
      (between (before ++ '"' :: cs.takeWhile (· != '"'))
        (cs.dropWhile (· != '"'))).advance.toBlockEnd [opener] [closer] inner := by
  rw [toBlockEnd.eq_def, atEnd_between_cons, peek_between_cons]
  simp only [Bool.false_eq_true, if_false, List.cons.injEq, ho.symm, hc.symm, and_true, if_true]
  split
  · next h => rw [quoted_between] at h; simp at h
  · next h =>
    rw [quoted_between] at h
    simp only [Except.ok.injEq, Prod.mk.injEq] at h
    rw [← h.2]

theorem toBlockEnd_other (ho : ch ≠ opener) (hc : ch ≠ closer) (hq : ch ≠ '"')
    (before cs : List Char) (inner : Nat) :
    (between before (ch :: cs)).toBlockEnd [opener] [closer] inner =
      (between (before ++ [ch]) cs).toBlockEnd [opener] [closer] inner := by
  rw [toBlockEnd.eq_def, atEnd_between_cons, peek_between_cons, advance_between_cons]
  simp [ho, hc, hq]

/-- A run of characters that are neither marks nor quotes is passed as a whole. -/
theorem toBlockEnd_run (h : ∀ ch ∈ cs, ch ≠ opener ∧ ch ≠ closer ∧ ch ≠ '"')
    (before after : List Char) (inner : Nat) :
    (between before (cs ++ after)).toBlockEnd [opener] [closer] inner =
      (between (before ++ cs) after).toBlockEnd [opener] [closer] inner := by
  induction cs generalizing before with
  | nil => rw [List.nil_append, List.append_nil]
  | cons ch cs ih =>
    obtain ⟨ho, hc, hq⟩ := h ch List.mem_cons_self
    rw [List.cons_append, toBlockEnd_other ho hc hq, ih fun x hx => h x (List.mem_cons_of_mem _ hx)]
    simp

/-- The text of a block whose end is known. -/
theorem block_between {before cs inside rest : List Char} (hcs : cs = inside ++ rest)
    (h : (between (before ++ [opener]) cs).toBlockEnd [opener] [closer] 0 =
      .ok (between (before ++ [opener] ++ inside) rest)) :
    (between before (opener :: cs)).block [opener] [closer] =
      .ok (inside, between (before ++ [opener] ++ inside) rest) := by
  unfold block
  rw [advance_between_cons, h, hcs]
  simp only [position_between]
  rw [slice_between]

end Blocks

end Cursor

end FullText
