import FullText.Proofs.Runs
import FullText.Search.Token

/-!
# The tokens of a text, one at a time

`Lexeme c cs t rest` says that in front of `rest` the text `c :: cs` is the token `t`. Each text
that does not start with a blank starts with a lexeme (`exists_lexeme`), and a lexeme stays one when
the text behind it is cut off anywhere (`Lexeme.of_prefix`).
-/

namespace FullText

namespace Search

/-- In front of `rest`, the text `c :: cs` is the token `t`. -/
inductive Lexeme : Char → List Char → Token → List Char → Prop
  | word {c cs rest} (hc : isWordChar c = true) (hcs : ∀ ch ∈ cs, isWordChar ch = true)
      (hr : ∀ ch ∈ rest.head?, isWordChar ch = false ∧ ch ≠ '*') :
      Lexeme c cs (.word (c :: cs) false) rest
  | starred {c cs rest} (hc : isWordChar c = true) (hcs : ∀ ch ∈ cs, isWordChar ch = true) :
      Lexeme c (cs ++ ['*']) (.word (c :: cs ++ ['*']) true) rest
  | phrase {cs rest} (hcs : '"' ∉ cs) : Lexeme '"' (cs ++ ['"']) (.phrase cs) rest
  | unclosed {cs} (hcs : '"' ∉ cs) : Lexeme '"' cs (.phrase cs) []
  | mark {c rest} (hc : isWordChar c = false) (hq : c ≠ '"') : Lexeme c [] (.mark c) rest

variable {c : Char} {cs ds rest : List Char} {t : Token}

theorem isWordChar_star : isWordChar '*' = false := by decide

theorem isWordChar_quote : isWordChar '"' = false := by decide

theorem isWordChar_opener (b : Bracket) : isWordChar b.opener = false := by cases b <;> decide

theorem isWordChar_closer (b : Bracket) : isWordChar b.closer = false := by cases b <;> decide

/-! ## Lexemes -/

theorem Lexeme.take (h : Lexeme c cs t rest) : Token.take c (cs ++ rest) = (t, rest) := by
  unfold Token.take
  cases h with
  | word hc hcs hr =>
    rw [if_pos hc, dropWhile_run hcs fun ch hch => (hr ch hch).1,
      takeWhile_run hcs fun ch hch => (hr ch hch).1]
    split
    · exact absurd rfl (hr '*' rfl).2
    · rfl
  | starred hc hcs =>
    have hr : ∀ ch ∈ ('*' :: rest).head?, isWordChar ch = false := by
      rintro ch ⟨⟩
      exact isWordChar_star
    rw [if_pos hc, List.append_assoc, List.singleton_append, dropWhile_run hcs hr,
      takeWhile_run hcs hr]
    rfl
  | @phrase cs _ hcs =>
    have hr : ∀ ch ∈ ('"' :: rest).head?, (ch != '"') = false := by
      rintro ch ⟨⟩
      rfl
    rw [if_neg (by simp [isWordChar_quote]), if_pos rfl, List.append_assoc, List.singleton_append,
      dropWhile_run (bne_of_notMem hcs) hr, takeWhile_run (bne_of_notMem hcs) hr]
    rfl
  | unclosed hcs =>
    rw [if_neg (by simp [isWordChar_quote]), if_pos rfl,
      dropWhile_run (bne_of_notMem hcs) (by simp),
      takeWhile_run (bne_of_notMem hcs) (by simp)]
    rfl
  | mark hc hq =>
    rw [if_neg (by simp [hc]), if_neg hq]
    rfl

theorem Lexeme.of_prefix (h : Lexeme c cs t (ds ++ rest)) : Lexeme c cs t ds := by
  generalize hr : ds ++ rest = r at h
  cases h with
  | word hc hcs hhead =>
    refine .word hc hcs fun ch hch => hhead ch ?_
    cases ds with
    | nil => exact absurd hch (by simp)
    | cons d ds =>
      rw [← hr]
      exact hch
  | starred hc hcs => exact .starred hc hcs
  | phrase hcs => exact .phrase hcs
  | unclosed hcs =>
    rw [(List.append_eq_nil_iff.mp hr).1]
    exact .unclosed hcs
  | mark hc hq => exact .mark hc hq

theorem exists_lexeme (c : Char) (cs : List Char) :
    ∃ w, cs = w ++ (Token.take c cs).2 ∧ Lexeme c w (Token.take c cs).1 (Token.take c cs).2 := by
  unfold Token.take
  by_cases hc : isWordChar c = true
  · have hw : ∀ ch ∈ cs.takeWhile isWordChar, isWordChar ch = true :=
      List.all_eq_true.mp List.all_takeWhile
    have hcs := List.takeWhile_append_dropWhile (p := isWordChar) (l := cs)
    rw [if_pos hc]
    split
    · next rest hrest =>
      refine ⟨cs.takeWhile isWordChar ++ ['*'], ?_, .starred hc hw⟩
      rw [List.append_assoc, List.singleton_append, ← hrest, hcs]
    · next hstar =>
      refine ⟨cs.takeWhile isWordChar, hcs.symm, .word hc hw fun ch hch => ?_⟩
      have hno := List.head?_dropWhile_not isWordChar cs
      rw [hch] at hno
      refine ⟨by simpa using hno, ?_⟩
      rintro rfl
      obtain ⟨rest, hrest⟩ := List.head?_eq_some_iff.mp hch
      exact hstar rest hrest
  · rw [if_neg hc]
    by_cases hq : c = '"'
    · subst hq
      have hcs := List.takeWhile_append_dropWhile (p := (· != '"')) (l := cs)
      rw [if_pos rfl]
      cases hd : cs.dropWhile (· != '"') with
      | nil =>
        rw [hd, List.append_nil] at hcs
        refine ⟨cs, by simp, ?_⟩
        rw [hcs]
        exact .unclosed (hcs ▸ notMem_takeWhile '"' cs)
      | cons ch rest =>
        have hno := List.head?_dropWhile_not (· != '"') cs
        rw [hd] at hno
        obtain rfl : ch = '"' := by simpa using hno
        refine ⟨cs.takeWhile (· != '"') ++ ['"'], ?_, .phrase (notMem_takeWhile '"' cs)⟩
        rw [List.append_assoc, List.singleton_append, List.drop_one, List.tail_cons, ← hd, hcs]
    · rw [if_neg hq]
      exact ⟨[], rfl, .mark (by simpa using hc) hq⟩

/-! ## Tokens -/

theorem tokens_nil : tokens [] = [] := by rw [tokens]

theorem tokens_of_isBlank (h : Text.isBlank c = true) : tokens (c :: cs) = tokens cs := by
  rw [tokens, if_pos h]

theorem Lexeme.tokens (h : Lexeme c cs t rest) (hb : Text.isBlank c = false) :
    tokens (c :: (cs ++ rest)) = t :: tokens rest := by
  rw [Search.tokens, if_neg (by simp [hb]), h.take]

theorem tokens_dropWhile_isBlank (cs : List Char) :
    tokens (cs.dropWhile Text.isBlank) = tokens cs := by
  induction cs with
  | nil => rfl
  | cons c cs ih =>
    by_cases hb : Text.isBlank c = true
    · rw [List.dropWhile_cons_of_pos hb, tokens_of_isBlank hb, ih]
    · rw [List.dropWhile_cons_of_neg hb]

/-- A text is read blank by blank and lexeme by lexeme. -/
@[elab_as_elim]
theorem lexeme_induction {P : List Char → Prop} (cs : List Char) (nil : P [])
    (blank : ∀ c cs, Text.isBlank c = true → P cs → P (c :: cs))
    (lexeme : ∀ c w t rest, Text.isBlank c = false → Lexeme c w t rest → P rest →
      P (c :: (w ++ rest))) : P cs := by
  induction hn : cs.length using Nat.strongRecOn generalizing cs with
  | ind n ih =>
    cases cs with
    | nil => exact nil
    | cons c cs =>
      rw [List.length_cons] at hn
      by_cases hb : Text.isBlank c = true
      · exact blank c cs hb (ih cs.length (by omega) cs rfl)
      · obtain ⟨w, hcs, hlex⟩ := exists_lexeme c cs
        have hlen := length_take_le c cs
        generalize (Token.take c cs).1 = t at hlex
        generalize (Token.take c cs).2 = rest at hcs hlex hlen
        subst hcs
        exact lexeme c w t rest (by simpa using hb) hlex (ih rest.length (by omega) rest rfl)

end Search

end FullText
