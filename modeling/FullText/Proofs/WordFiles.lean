import Mathlib.Data.List.Basic
import Mathlib.Data.List.TakeWhile
import FullText.Proofs.WellFormed
import FullText.StopWords.File

/-!
# Files of words

A text has one way to be cut into lines (`lines_eq_iff`), and a line one way to be stripped
(`stripChars_eq_iff`), so it is settled which words a text holds (`mem_wordLines`). However words
are written down, one a line, they are read in this order (`wordLines_of_sheet`).
-/

namespace FullText

namespace Text

/-- What ends a line. -/
inductive LineEnd where
  | feed
  | carriage
  | pair

def LineEnd.chars : LineEnd → List Char
  | feed => ['\n']
  | carriage => ['\r']
  | pair => ['\r', '\n']

variable {cs line rest x : List Char} {ls : List (List Char)} {c : Char}

/-- A text that no line ends in. -/
def Unbroken (cs : List Char) : Prop := ∀ c ∈ cs, c ≠ '\n' ∧ c ≠ '\r'

instance (cs : List Char) : Decidable (Unbroken cs) :=
  List.decidableBAll (fun c => c ≠ '\n' ∧ c ≠ '\r') cs

/-- The text is made of these lines. A carriage return in front of a line feed is one line end with
it. -/
inductive HasLines : List Char → List (List Char) → Prop
  | last {line : List Char} (h : Unbroken line) : HasLines line [line]
  | cut {line rest : List Char} {ls : List (List Char)} (e : LineEnd) (h : Unbroken line)
    (he : e = .carriage → rest.head? ≠ some '\n') (hrest : HasLines rest ls) :
    HasLines (line ++ e.chars ++ rest) (line :: ls)

/-! ## Lines -/

theorem unbroken_nil : Unbroken [] := by simp [Unbroken]

theorem Unbroken.reverse (h : Unbroken line) : Unbroken line.reverse :=
  fun c hc => h c (List.mem_reverse.mp hc)

theorem linesFrom_cons (hc : c ≠ '\n' ∧ c ≠ '\r') (line cs : List Char) :
    linesFrom line (c :: cs) = linesFrom (c :: line) cs := by
  rw [linesFrom, if_neg (not_or.mpr hc)]
  exact fun _ h _ => hc.2 h

theorem linesFrom_append (h : Unbroken line) (before cs : List Char) :
    linesFrom before (line ++ cs) = linesFrom (line.reverse ++ before) cs := by
  induction line generalizing before with
  | nil => rfl
  | cons c line ih =>
    obtain ⟨hc, h⟩ := List.forall_mem_cons.mp h
    rw [List.cons_append, linesFrom_cons hc, ih h, List.reverse_cons, List.append_assoc,
      List.singleton_append]

theorem lines_append (h : Unbroken line) (e : LineEnd)
    (he : e = .carriage → rest.head? ≠ some '\n') :
    lines (line ++ e.chars ++ rest) = line :: lines rest := by
  unfold lines
  rw [List.append_assoc, linesFrom_append h, List.append_nil]
  cases e with
  | feed => simp [LineEnd.chars, linesFrom]
  | carriage =>
    have hrest : ∀ cs, rest = '\n' :: cs → False := by
      rintro cs rfl
      exact he rfl rfl
    rw [LineEnd.chars, List.singleton_append, linesFrom, if_pos (.inr rfl), List.reverse_reverse]
    exact fun cs _ => hrest cs
  | pair => simp [LineEnd.chars, linesFrom]

/-- The lines of a text are found, behind what has been read of the first one. -/
theorem hasLines_linesFrom (h : Unbroken line) :
    HasLines (line.reverse ++ cs) (linesFrom line cs) := by
  fun_induction linesFrom line cs with
  | case1 line =>
    rw [List.append_nil]
    exact .last h.reverse
  | case2 line cs ih =>
    have hcut := HasLines.cut .pair h.reverse (by simp) (ih unbroken_nil)
    rwa [LineEnd.chars, List.append_assoc] at hcut
  | case3 line c cs hpair hc ih =>
    rcases hc with rfl | rfl
    · have hcut := HasLines.cut .feed h.reverse (by simp) (ih unbroken_nil)
      rwa [LineEnd.chars, List.append_assoc] at hcut
    · have hcs : cs.head? ≠ some '\n' := by
        intro hhead
        obtain ⟨cs', rfl⟩ := List.head?_eq_some_iff.mp hhead
        exact hpair cs' rfl rfl
      have hcut := HasLines.cut .carriage h.reverse (fun _ => hcs) (ih unbroken_nil)
      rwa [LineEnd.chars, List.append_assoc] at hcut
  | case4 line c cs _ hc ih =>
    have hrest := ih (List.forall_mem_cons.mpr ⟨not_or.mp hc, h⟩)
    rwa [List.reverse_cons, List.append_assoc] at hrest

/-- **Lines.** A text is cut into the lines that it is made of. -/
theorem lines_eq_iff : lines cs = ls ↔ HasLines cs ls := by
  constructor
  · rintro rfl
    exact hasLines_linesFrom unbroken_nil
  · intro h
    induction h with
    | last h => exact lines_of_noBreak h
    | cut e h he _ ih => rw [lines_append h e he, ih]

/-! ## Stripping -/

/-- The text with blanks around it. -/
def Padded (x cs : List Char) : Prop :=
  ∃ before after, cs = before ++ x ++ after ∧ ∀ c ∈ before ++ after, isBlank c = true

theorem padded_stripChars (cs : List Char) : Padded (stripChars cs) cs := by
  refine ⟨cs.takeWhile isBlank, ((cs.dropWhile isBlank).reverse.takeWhile isBlank).reverse, ?_,
    fun c hc => ?_⟩
  · rw [stripChars, List.append_assoc, ← List.reverse_append, List.takeWhile_append_dropWhile,
      List.reverse_reverse, List.takeWhile_append_dropWhile]
  · rcases List.mem_append.mp hc with hc | hc
    · exact List.mem_takeWhile_imp hc
    · exact List.mem_takeWhile_imp (List.mem_reverse.mp hc)

theorem stripChars_of_isBlank (h : ∀ c ∈ cs, isBlank c = true) : stripChars cs = [] := by
  rw [stripChars, List.dropWhile_eq_nil_iff.mpr h]
  rfl

theorem stripChars_of_padded (h : Padded x cs) (hx : Search.Trimmed x) : stripChars cs = x := by
  obtain ⟨before, after, rfl, hb⟩ := h
  by_cases hnil : x = []
  · rw [hnil, List.append_nil]
    exact stripChars_of_isBlank hb
  obtain ⟨hbefore, hafter⟩ := List.forall_mem_append.mp hb
  have hleft : (before ++ (x ++ after)).dropWhile isBlank = x ++ after := by
    refine dropWhile_run hbefore ?_
    rw [List.head?_append_of_ne_nil x hnil]
    exact hx.1
  have hright : (after.reverse ++ x.reverse).dropWhile isBlank = x.reverse := by
    refine dropWhile_run (fun c hc => hafter c (List.mem_reverse.mp hc)) ?_
    rw [List.head?_reverse]
    exact hx.2
  rw [stripChars, List.append_assoc, hleft, List.reverse_append, hright, List.reverse_reverse]

/-- **Stripping.** What is left of a text has it around it with blanks, and none at its own ends. -/
theorem stripChars_eq_iff : stripChars cs = x ↔ Padded x cs ∧ Search.Trimmed x := by
  constructor
  · rintro rfl
    exact ⟨padded_stripChars cs, Search.trimmed_stripChars cs⟩
  · rintro ⟨h, hx⟩
    exact stripChars_of_padded h hx

/-- Stripping takes nothing away from the front of a text that starts with no blank. -/
theorem head?_stripChars {before : List Char} (hb : ∀ c ∈ before, isBlank c = true)
    (hc : isBlank c = false) (rest : List Char) :
    (stripChars (before ++ c :: rest)).head? = some c := by
  have hleft : (before ++ c :: rest).dropWhile isBlank = c :: rest := by
    refine dropWhile_run hb ?_
    rintro ch ⟨⟩
    exact hc
  rw [stripChars, hleft, List.head?_reverse, List.reverse_cons, List.dropWhile_append]
  split
  · simp [hc]
  · simp

end Text

namespace StopWords

open Text (HasLines LineEnd Padded Unbroken)

variable {line rest text : List Char} {w : Option String} {ws : List String} {x : String}

/-- What can stand in a file as a word: it is not empty, has no blank at its ends, and is not taken
for a comment. -/
structure IsWord (x : String) : Prop where
  ne_empty : x ≠ ""
  trimmed : Search.Trimmed x.toList
  no_comment : x.toList.head? ≠ some '#'

/-- The word is all that stands on one of the lines. -/
def HoldsWord (text : List Char) (x : String) : Prop :=
  IsWord x ∧ ∃ ls, HasLines text ls ∧ ∃ line ∈ ls, Padded x.toList line

theorem isWordLine_iff : isWordLine x.toList = true ↔ x ≠ "" ∧ x.toList.head? ≠ some '#' := by
  simp [isWordLine]

/-- **Words.** The words of a text are those that are all that stands on a line. -/
theorem mem_wordLines : x ∈ wordLines text ↔ HoldsWord text x := by
  have hmem : x ∈ wordLines text ↔
      ∃ line ∈ Text.lines text, Text.stripChars line = x.toList ∧ isWordLine x.toList = true := by
    simp only [wordLines, List.mem_map, List.mem_filter]
    constructor
    · rintro ⟨cs, ⟨⟨line, hline, hcs⟩, hword⟩, rfl⟩
      rw [String.toList_ofList]
      exact ⟨line, hline, hcs, hword⟩
    · rintro ⟨line, hline, hcs, hword⟩
      exact ⟨x.toList, ⟨⟨line, hline, hcs⟩, hword⟩, String.ofList_toList⟩
  rw [hmem]
  constructor
  · rintro ⟨line, hline, hcs, hword⟩
    obtain ⟨hpadded, htrimmed⟩ := Text.stripChars_eq_iff.mp hcs
    obtain ⟨hne, hhead⟩ := isWordLine_iff.mp hword
    exact ⟨⟨hne, htrimmed, hhead⟩, _, Text.lines_eq_iff.mp rfl, line, hline, hpadded⟩
  · rintro ⟨⟨hne, htrimmed, hhead⟩, ls, hls, line, hline, hpadded⟩
    rw [← Text.lines_eq_iff] at hls
    rw [hls]
    exact ⟨line, hline, Text.stripChars_of_padded hpadded htrimmed,
      isWordLine_iff.mpr ⟨hne, hhead⟩⟩

/-! ## Words written down -/

/-- A line with a word on it, or one that is blank or a comment. -/
inductive Row : List Char → Option String → Prop
  | word {line : List Char} {x : String} (h : Padded x.toList line) : Row line (some x)
  | blank {line : List Char} (h : ∀ c ∈ line, Text.isBlank c = true) : Row line none
  | comment {before : List Char} (h : ∀ c ∈ before, Text.isBlank c = true) (remark : List Char) :
    Row (before ++ '#' :: remark) none

/-- A text with these words on its lines, from top to bottom. Each line but the last one ends in one
way or another. -/
inductive Sheet : List Char → List String → Prop
  | last {line : List Char} {w : Option String} (hline : Unbroken line) (hrow : Row line w) :
    Sheet line w.toList
  | row {line rest : List Char} {w : Option String} {ws : List String} (hline : Unbroken line)
    (hrow : Row line w) (e : LineEnd) (hrest : Sheet rest ws) :
    Sheet (line ++ e.chars ++ rest) (w.toList ++ ws)

/-- Words can be written one a line, if no line ends in them. -/
theorem exists_sheet (hws : ∀ x ∈ ws, Unbroken x.toList) : ∃ text, Sheet text ws := by
  induction ws with
  | nil => exact ⟨[], .last Text.unbroken_nil (.blank (by simp))⟩
  | cons x ws ih =>
    obtain ⟨hx, hws⟩ := List.forall_mem_cons.mp hws
    obtain ⟨rest, hrest⟩ := ih hws
    exact ⟨x.toList ++ LineEnd.feed.chars ++ rest,
      .row hx (.word ⟨[], [], by simp, by simp⟩) .feed hrest⟩

theorem wordLines_of_unbroken (h : Unbroken line) :
    wordLines line = ([Text.stripChars line].filter isWordLine).map String.ofList := by
  rw [wordLines, Text.lines_of_noBreak h]
  rfl

theorem wordLines_of_row (hline : Unbroken line) (hrow : Row line w) (hw : ∀ x ∈ w, IsWord x) :
    wordLines line = w.toList := by
  rw [wordLines_of_unbroken hline]
  cases hrow with
  | @word _ x h =>
    obtain ⟨hne, htrimmed, hhead⟩ := hw x rfl
    rw [Text.stripChars_of_padded h htrimmed,
      List.filter_cons_of_pos (isWordLine_iff.mpr ⟨hne, hhead⟩)]
    simp
  | blank h =>
    rw [Text.stripChars_of_isBlank h]
    rfl
  | comment h remark =>
    have hhead := Text.head?_stripChars h (show Text.isBlank '#' = false by decide) remark
    rw [List.filter_cons_of_neg (by simp [isWordLine, hhead])]
    rfl

theorem wordLines_cut (hline : Unbroken line) {e : LineEnd}
    (he : e = .carriage → rest.head? ≠ some '\n') :
    wordLines (line ++ e.chars ++ rest) = wordLines line ++ wordLines rest := by
  rw [wordLines, Text.lines_append hline e he, wordLines_of_unbroken hline, wordLines,
    ← List.map_append, ← List.filter_append, List.map_cons]
  rfl

/-- A line end does not have to be told from two, as there is no word on the line between. -/
theorem wordLines_append (hline : Unbroken line) (e : LineEnd) (rest : List Char) :
    wordLines (line ++ e.chars ++ rest) = wordLines line ++ wordLines rest := by
  by_cases hpair : e = .carriage ∧ rest.head? = some '\n'
  · obtain ⟨rfl, hhead⟩ := hpair
    obtain ⟨rest, rfl⟩ := List.head?_eq_some_iff.mp hhead
    have hchars : line ++ LineEnd.carriage.chars ++ '\n' :: rest =
        line ++ LineEnd.pair.chars ++ rest := by
      simp [LineEnd.chars]
    have hfeed : wordLines ('\n' :: rest) = wordLines rest :=
      wordLines_cut (e := .feed) Text.unbroken_nil (by simp)
    rw [hchars, wordLines_cut hline (by simp), hfeed]
  · exact wordLines_cut hline fun he hhead => hpair ⟨he, hhead⟩

/-- **Words written down.** However words are written, one a line, they are read in their order. -/
theorem wordLines_of_sheet (h : Sheet text ws) (hws : ∀ x ∈ ws, IsWord x) :
    wordLines text = ws := by
  induction h with
  | last hline hrow => exact wordLines_of_row hline hrow fun x hx => hws x (by simpa using hx)
  | row hline hrow e _ ih =>
    obtain ⟨hw, hws⟩ := List.forall_mem_append.mp hws
    rw [wordLines_append hline, wordLines_of_row hline hrow fun x hx => hw x (by simpa using hx),
      ih hws]

end StopWords

end FullText
