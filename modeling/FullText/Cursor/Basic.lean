import FullText.Fault
import FullText.Text.Blank

/-!
# Cursors

A position in a text, from which the text is read. The text cannot be read before its start, but
it can be read past its end, where it seems to go on with NUL. Moving ahead stops at the end. A
position before the start counts from the end, as the bounds of a slice do.

`remaining` is what is left of the text. No reading operation makes it longer
(`remaining_skipWhile`, `remaining_quoted`, `remaining_block`), and what stands between the marks
of a block is shorter than what was left before it (`length_block`).
-/

namespace FullText

structure Cursor where
  text : Array Char
  position : Int := 0
  deriving DecidableEq, Repr

namespace Cursor

def ofChars (cs : List Char) : Cursor := ⟨cs.toArray, 0⟩

def ofString (s : String) : Cursor := ofChars s.toList

def atEnd (c : Cursor) : Bool := decide ((c.text.size : Int) ≤ c.position)

/-- The length of the text from the position on. -/
def remaining (c : Cursor) : Nat := (c.text.size - c.position).toNat

theorem remaining_ofChars (cs : List Char) : (ofChars cs).remaining = cs.length := by
  simp [ofChars, remaining]

/-- The character at an index, counted from the end if negative. -/
def charAt (c : Cursor) (i : Int) : Except Fault Char :=
  let index := if i < 0 then i + c.text.size else i
  if i < -Int.pow 2 63 then .error .indexTooWide
  else if index < 0 then .error .outOfRange
  else .ok (c.text.getD index.toNat '\x00')

/-- The character `ahead` of the position. -/
def peek (c : Cursor) (ahead : Int := 0) : Except Fault Char := c.charAt (c.position + ahead)

def advance (c : Cursor) (n : Int := 1) : Cursor :=
  { c with position := min (c.position + n) c.text.size }

theorem remaining_advance_le (c : Cursor) {n : Int} (h : 0 ≤ n) :
    (c.advance n).remaining ≤ c.remaining := by
  simp only [remaining, advance]
  omega

theorem remaining_advance_lt {c : Cursor} (h : c.atEnd = false) {n : Int} (hn : 0 < n) :
    (c.advance n).remaining < c.remaining := by
  simp only [atEnd, decide_eq_false_iff_not] at h
  simp only [remaining, advance]
  omega

/-- A bound of a slice as an offset: counted from the end if negative, and at least zero. -/
def bound (c : Cursor) (i : Int) : Nat := (if i < 0 then i + c.text.size else i).toNat

/-- The text from one bound up to the other, empty if they are not in order. -/
def slice (c : Cursor) (start stop : Int) : List Char :=
  (c.text.extract (c.bound start) (c.bound stop)).toList

theorem length_slice_le (c : Cursor) (stop : Int) :
    (c.slice c.position stop).length ≤ c.remaining := by
  simp only [slice, Array.length_toList, Array.size_extract, bound, remaining]
  split <;> omega

/-! ## Skipping -/

/-- Moves ahead over the characters that satisfy `p`. -/
def skipWhile (p : Char → Bool) (c : Cursor) : Except Fault Cursor :=
  if c.atEnd then .ok c
  else
    match c.peek with
    | .error f => .error f
    | .ok ch => if p ch then skipWhile p c.advance else .ok c
termination_by c.remaining
decreasing_by exact remaining_advance_lt (by simp_all) (by decide)

theorem skipWhile_of_atEnd {p : Char → Bool} {c : Cursor} (h : c.atEnd = true) :
    c.skipWhile p = .ok c := by
  rw [skipWhile]; simp [h]

theorem remaining_skipWhile {p : Char → Bool} {c d : Cursor} (h : c.skipWhile p = .ok d) :
    d.remaining ≤ c.remaining := by
  fun_induction skipWhile p c with
  | case1 => simp_all
  | case2 => simp at h
  | case3 c _ _ _ _ ih => exact Nat.le_trans (ih h) (remaining_advance_le c (by decide))
  | case4 => simp_all

/-! ## Quoted text -/

/-- Reads up to the next `quote`. -/
def readTo (quote : Char) (c : Cursor) : Except Fault (List Char × Cursor) :=
  match c.skipWhile (· != quote) with
  | .error f => .error f
  | .ok d => .ok (c.slice c.position d.position, d)

theorem remaining_readTo {quote : Char} {c d : Cursor} {cs : List Char}
    (h : c.readTo quote = .ok (cs, d)) : d.remaining ≤ c.remaining := by
  unfold readTo at h
  split at h
  · simp at h
  · next e he =>
    simp only [Except.ok.injEq, Prod.mk.injEq] at h
    obtain ⟨-, rfl⟩ := h
    exact remaining_skipWhile he

/-- Reads up to the next `quote` that is not doubled, keeping one of each two. -/
def readDoubled (quote : Char) (c : Cursor) : Except Fault (List Char × Cursor) :=
  match _read : c.readTo quote with
  | .error f => .error f
  | .ok (cs, d) =>
    if d.atEnd then .ok (cs, d)
    else
      match d.peek 1 with
      | .error f => .error f
      | .ok ch =>
        if ch = quote then
          match readDoubled quote (d.advance 2) with
          | .error f => .error f
          | .ok (rest, e) => .ok (cs ++ quote :: rest, e)
        else .ok (cs, d)
termination_by c.remaining
decreasing_by
  exact Nat.lt_of_lt_of_le (remaining_advance_lt (by simp_all) (by decide))
    (remaining_readTo _read)

/-- Reads the text between the quote mark under the cursor and its match, which is left under the
cursor. With `escape`, a doubled mark stands for one mark in the text. -/
def quoted (c : Cursor) (escape : Bool := false) : Except Fault (List Char × Cursor) :=
  match c.peek with
  | .error f => .error f
  | .ok quote => if escape then c.advance.readDoubled quote else c.advance.readTo quote

theorem remaining_quoted {c d : Cursor} {cs : List Char} (h : c.quoted = .ok (cs, d)) :
    d.remaining ≤ c.advance.remaining := by
  unfold quoted at h
  split at h
  · simp at h
  · exact remaining_readTo (by simpa using h)

/-! ## Blocks -/

/-- Moves to the closing mark of a block inside which `inner` further blocks are open. Marks inside
double quotes do not count. -/
def toBlockEnd (opener closer : List Char) (inner : Nat) (c : Cursor) : Except Fault Cursor :=
  if c.atEnd then .ok c
  else
    match c.peek with
    | .error f => .error f
    | .ok ch =>
      if [ch] = opener then toBlockEnd opener closer (inner + 1) c.advance
      else if [ch] = closer then
        match inner with
        | 0 => .ok c
        | inner + 1 => toBlockEnd opener closer inner c.advance
      else if ch = '"' then
        match _read : c.quoted with
        | .error f => .error f
        | .ok (_, d) => toBlockEnd opener closer inner d.advance
      else toBlockEnd opener closer inner c.advance
termination_by c.remaining
decreasing_by
  · exact remaining_advance_lt (by simp_all) (by decide)
  · exact remaining_advance_lt (by simp_all) (by decide)
  · exact Nat.lt_of_le_of_lt
      (Nat.le_trans (remaining_advance_le _ (by decide)) (remaining_quoted _read))
      (remaining_advance_lt (by simp_all) (by decide))
  · exact remaining_advance_lt (by simp_all) (by decide)

theorem remaining_toBlockEnd {opener closer : List Char} {inner : Nat} {c d : Cursor}
    (h : c.toBlockEnd opener closer inner = .ok d) : d.remaining ≤ c.remaining := by
  have step (c : Cursor) : c.advance.remaining ≤ c.remaining := remaining_advance_le c (by decide)
  fun_induction toBlockEnd opener closer inner c with
  | case1 => simp_all
  | case2 => simp at h
  | case3 _ c _ _ _ _ ih => exact Nat.le_trans (ih h) (step c)
  | case4 => simp_all
  | case5 c _ _ _ _ _ _ ih => exact Nat.le_trans (ih h) (step c)
  | case6 => simp at h
  | case7 _ c _ _ e read _ _ _ ih =>
    exact Nat.le_trans (ih h)
      (Nat.le_trans (step e) (Nat.le_trans (remaining_quoted read) (step c)))
  | case8 _ c _ _ _ _ _ _ ih => exact Nat.le_trans (ih h) (step c)

/-- Reads the text of the block whose opening mark is under the cursor. The matching closing mark
is left under the cursor. -/
def block (opener closer : List Char) (c : Cursor) : Except Fault (List Char × Cursor) :=
  match c.advance.toBlockEnd opener closer 0 with
  | .error f => .error f
  | .ok d => .ok (c.advance.slice c.advance.position d.position, d)

theorem remaining_block {opener closer cs : List Char} {c d : Cursor}
    (h : c.block opener closer = .ok (cs, d)) : d.remaining ≤ c.advance.remaining := by
  unfold block at h
  split at h
  · simp at h
  · next e he =>
    simp only [Except.ok.injEq, Prod.mk.injEq] at h
    obtain ⟨-, rfl⟩ := h
    exact remaining_toBlockEnd he

theorem length_block {opener closer cs : List Char} {c d : Cursor}
    (h : c.block opener closer = .ok (cs, d)) : cs.length ≤ c.advance.remaining := by
  unfold block at h
  split at h
  · simp at h
  · simp only [Except.ok.injEq, Prod.mk.injEq] at h
    rw [← h.1]
    exact length_slice_le _ _

end Cursor

end FullText
