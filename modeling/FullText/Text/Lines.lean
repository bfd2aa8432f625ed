/-!
# Lines

A text is cut at each line feed, carriage return, or pair of the two in that order. One that holds
neither character is in one piece (`lines_of_noBreak`).
-/

namespace FullText.Text

/-- The pieces between the line ends, the first of them behind `line`, which comes last character
first. -/
def linesFrom (line : List Char) : List Char → List (List Char)
  | [] => [line.reverse]
  | '\r' :: '\n' :: cs => line.reverse :: linesFrom [] cs
  | c :: cs =>
    if c = '\n' ∨ c = '\r' then line.reverse :: linesFrom [] cs else linesFrom (c :: line) cs

/-- The pieces between the line ends, the last of them possibly empty. -/
def lines (cs : List Char) : List (List Char) := linesFrom [] cs

theorem linesFrom_of_noBreak {line cs : List Char} (h : ∀ c ∈ cs, c ≠ '\n' ∧ c ≠ '\r') :
    linesFrom line cs = [line.reverse ++ cs] := by
  fun_induction linesFrom line cs with
  | case1 => simp
  | case2 line cs => simp at h
  | case3 line c cs _ hc => exact absurd hc (by simpa [not_or] using h c (by simp))
  | case4 line c cs _ _ ih => simpa using ih fun d hd => h d (by simp [hd])

theorem lines_of_noBreak {cs : List Char} (h : ∀ c ∈ cs, c ≠ '\n' ∧ c ≠ '\r') :
    lines cs = [cs] :=
  linesFrom_of_noBreak h

end FullText.Text
