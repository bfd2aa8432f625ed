/-!
# White space

The characters that separate words, and stripping them from both ends of a text. The first
character of a stripped text is no blank (`isBlank_head_stripChars`), nor is the last
(`isBlank_getLast_stripChars`).
-/

namespace FullText.Text

/-- The inclusive code-point ranges of the blanks. -/
def blankRanges : List (Nat × Nat) :=
  [(0x0009, 0x000D), (0x001C, 0x0020), (0x0085, 0x0085), (0x00A0, 0x00A0), (0x1680, 0x1680),
   (0x2000, 0x200A), (0x2028, 0x2029), (0x202F, 0x202F), (0x205F, 0x205F), (0x3000, 0x3000)]

/-- Whether `n` lies in one of the inclusive ranges. -/
def inRanges (ranges : List (Nat × Nat)) (n : Nat) : Bool :=
  ranges.any fun r => decide (r.1 ≤ n) && decide (n ≤ r.2)

def isBlank (c : Char) : Bool := inRanges blankRanges c.toNat

/-- The text without the blanks at its two ends. -/
def stripChars (cs : List Char) : List Char :=
  ((cs.dropWhile isBlank).reverse.dropWhile isBlank).reverse

theorem isBlank_head_dropWhile {cs : List Char} {c : Char}
    (h : (cs.dropWhile isBlank).head? = some c) : isBlank c = false := by
  have := List.head?_dropWhile_not isBlank cs
  rw [h] at this
  simpa using this

theorem isBlank_getLast_stripChars {cs : List Char} {c : Char}
    (h : (stripChars cs).getLast? = some c) : isBlank c = false := by
  rw [stripChars, List.getLast?_reverse] at h
  exact isBlank_head_dropWhile h

theorem isBlank_head_stripChars {cs : List Char} {c : Char}
    (h : (stripChars cs).head? = some c) : isBlank c = false := by
  have suffix : (stripChars cs).head? = (cs.dropWhile isBlank).head? := by
    have sub := (List.dropWhile_suffix (l := (cs.dropWhile isBlank).reverse) isBlank)
    obtain ⟨t, ht⟩ := sub
    have whole : cs.dropWhile isBlank = stripChars cs ++ t.reverse := by
      have := congrArg List.reverse ht
      simpa [stripChars] using this.symm
    cases hs : stripChars cs with
    | nil => rw [hs] at h; simp at h
    | cons a l => rw [whole, hs]; rfl
  rw [suffix] at h
  exact isBlank_head_dropWhile h

end FullText.Text
