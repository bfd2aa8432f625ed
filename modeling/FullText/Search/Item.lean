import FullText.Cursor.Basic
import FullText.Tree.Basic

/-!
# Items of a search expression

A search expression is read item by item: a word, a quoted phrase, a block in brackets, or a mark.
A block is cut out whole, to be read as an expression of its own. Reading an item makes progress:
`remaining_nextItem` says that less of the text is left, and `length_block_nextItem` that a block
is shorter than what was left before it.
-/

namespace FullText

namespace Search

/-- The characters that end a word. -/
def punctuation : List Char :=
  ['~', '"', '\x60', '!', '@', '#', '$', '%', '^', '&', '*', '(', ')', '-', '+', '=', '[', ']',
   '\x7b', '\x7d', '\\', '|', ';', ':', ',', '.', '<', '>', '?', '/']

def isPunctuation (c : Char) : Bool := punctuation.contains c

/-- Whether a character can stand in a word. -/
def isWordChar (c : Char) : Bool := !isPunctuation c && !Text.isBlank c

inductive Bracket where
  | round
  | angle
  deriving DecidableEq, Repr

namespace Bracket

def opener : Bracket → Char
  | round => '('
  | angle => '<'

def closer : Bracket → Char
  | round => ')'
  | angle => '>'

/-- The bracket that a character opens. -/
def ofOpener? (c : Char) : Option Bracket :=
  if c = '(' then some round else if c = '<' then some angle else none

/-- Only round brackets make a group. -/
def groups : Bracket → Bool
  | round => true
  | angle => false

/-- The conjunction of terms with none written between them, in brackets inside a text where it
is `outer`. -/
def default (outer : Conjunction) : Bracket → Conjunction
  | round => outer
  | angle => .near

end Bracket

inductive Item where
  /-- A word, with the star behind it if there is one. -/
  | word (cs : List Char) (starred : Bool)
  | phrase (cs : List Char)
  | block (b : Bracket) (cs : List Char)
  | mark (c : Char)
  deriving DecidableEq, Repr

/-- What a word stands for when it is no term. -/
inductive Keyword where
  | join (c : Conjunction)
  | negate
  deriving DecidableEq, Repr

/-- The keyword that a word is, in any letter case. -/
def Keyword.ofWord? (cs : List Char) : Option Keyword :=
  let upper := cs.map Char.toUpper
  if upper = ['A', 'N', 'D'] then some (.join .and)
  else if upper = ['O', 'R'] then some (.join .or)
  else if upper = ['N', 'E', 'A', 'R'] then some (.join .near)
  else if upper = ['N', 'O', 'T'] then some .negate
  else none

end Search

namespace Cursor

open Search

/-- Reads the word whose first character is under the cursor. -/
def word (c : Cursor) : Except Fault (Item × Cursor) :=
  match c.advance.skipWhile isWordChar with
  | .error f => .error f
  | .ok d =>
    match d.peek with
    | .error f => .error f
    | .ok ch =>
      let starred := ch == '*'
      let e := if starred then d.advance else d
      .ok (.word (c.slice c.position e.position) starred, e)

/-- Reads the phrase whose opening quote is under the cursor, and the closing quote. -/
def phrase (c : Cursor) : Except Fault (Item × Cursor) :=
  match c.quoted with
  | .error f => .error f
  | .ok (cs, d) => .ok (.phrase (Text.stripChars cs), d.advance)

/-- Reads the block whose opening bracket is under the cursor, and the closing bracket. -/
def bracketed (b : Bracket) (c : Cursor) : Except Fault (Item × Cursor) :=
  match c.block [b.opener] [b.closer] with
  | .error f => .error f
  | .ok (cs, d) => .ok (.block b cs, d.advance)

/-- Reads the item under the cursor. -/
def itemHere (c : Cursor) : Except Fault (Item × Cursor) :=
  match c.peek with
  | .error f => .error f
  | .ok ch =>
    if !c.atEnd && !isPunctuation ch then c.word
    else if ch = '"' then c.phrase
    else
      match Bracket.ofOpener? ch with
      | some b => c.bracketed b
      | none => .ok (.mark ch, c.advance)

/-- Reads the next item behind any white space. At the end of the text that is a NUL mark. -/
def nextItem (c : Cursor) : Except Fault (Item × Cursor) :=
  match c.skipWhile Text.isBlank with
  | .error f => .error f
  | .ok d => d.itemHere

theorem remaining_word {c d : Cursor} {i : Item} (h : c.word = .ok (i, d)) :
    d.remaining ≤ c.advance.remaining := by
  unfold word at h
  split at h
  · simp at h
  · next e he =>
    have hle := remaining_skipWhile he
    split at h
    · simp at h
    · simp only [Except.ok.injEq, Prod.mk.injEq] at h
      obtain ⟨-, rfl⟩ := h
      split
      · exact Nat.le_trans (remaining_advance_le _ (by decide)) hle
      · exact hle

theorem remaining_phrase {c d : Cursor} {i : Item} (h : c.phrase = .ok (i, d)) :
    d.remaining ≤ c.advance.remaining := by
  unfold phrase at h
  split at h
  · simp at h
  · next cs e he =>
    simp only [Except.ok.injEq, Prod.mk.injEq] at h
    obtain ⟨-, rfl⟩ := h
    exact Nat.le_trans (remaining_advance_le _ (by decide)) (remaining_quoted he)

theorem remaining_bracketed {c d : Cursor} {b : Bracket} {i : Item}
    (h : c.bracketed b = .ok (i, d)) : d.remaining ≤ c.advance.remaining := by
  unfold bracketed at h
  split at h
  · simp at h
  · next cs e he =>
    simp only [Except.ok.injEq, Prod.mk.injEq] at h
    obtain ⟨-, rfl⟩ := h
    exact Nat.le_trans (remaining_advance_le _ (by decide)) (remaining_block he)

theorem remaining_itemHere {c d : Cursor} {i : Item} (h : c.itemHere = .ok (i, d)) :
    d.remaining ≤ c.advance.remaining := by
  unfold itemHere at h
  split at h
  · simp at h
  · split at h
    · exact remaining_word h
    · split at h
      · exact remaining_phrase h
      · split at h
        · exact remaining_bracketed h
        · simp only [Except.ok.injEq, Prod.mk.injEq] at h
          exact Nat.le_of_eq (congrArg remaining h.2.symm)

theorem length_block_itemHere {c d : Cursor} {b : Bracket} {cs : List Char}
    (h : c.itemHere = .ok (.block b cs, d)) : cs.length ≤ c.advance.remaining := by
  unfold itemHere at h
  split at h
  · simp at h
  · split at h
    · unfold word at h
      split at h
      · simp at h
      · split at h <;> simp at h
    · split at h
      · unfold phrase at h
        split at h <;> simp at h
      · split at h
        · unfold bracketed at h
          split at h
          · simp at h
          · next he =>
            simp only [Except.ok.injEq, Prod.mk.injEq, Item.block.injEq] at h
            obtain ⟨⟨-, rfl⟩, -⟩ := h
            exact length_block he
        · simp at h

/-- One step beyond skipped characters leaves less of the text, also if they reach to its end. -/
theorem remaining_advance_of_skipWhile {p : Char → Bool} {c d : Cursor}
    (h : c.skipWhile p = .ok d) (hc : c.atEnd = false) : d.advance.remaining < c.remaining := by
  have hle := remaining_skipWhile h
  by_cases hd : d.atEnd = true
  · have hc' : 0 < c.remaining := by
      simp only [atEnd, decide_eq_false_iff_not] at hc
      simp only [remaining]
      omega
    simp only [atEnd, decide_eq_true_eq] at hd
    simp only [remaining, advance] at *
    omega
  · exact Nat.lt_of_lt_of_le (remaining_advance_lt (by simpa using hd) (by decide)) hle

theorem remaining_nextItem {c d : Cursor} {i : Item} (h : c.nextItem = .ok (i, d))
    (hc : c.atEnd = false) : d.remaining < c.remaining := by
  unfold nextItem at h
  split at h
  · simp at h
  · next he =>
    exact Nat.lt_of_le_of_lt (remaining_itemHere h) (remaining_advance_of_skipWhile he hc)

theorem length_block_nextItem {c d : Cursor} {b : Bracket} {cs : List Char}
    (h : c.nextItem = .ok (.block b cs, d)) (hc : c.atEnd = false) : cs.length < c.remaining := by
  unfold nextItem at h
  split at h
  · simp at h
  · next he =>
    exact Nat.lt_of_le_of_lt (length_block_itemHere h) (remaining_advance_of_skipWhile he hc)

end Cursor

end FullText
