import FullText.Proofs.Terms

/-!
# Well-formed terms

Whatever text is read, each term of the tree is well-formed (`wellFormed_of_parse`): its word is
neither empty nor a stop word, holds no quote, and has no blank at its ends. What is not matched to
the letter is one word without punctuation, and none that stands for a conjunction or a negation.
-/

namespace FullText

namespace Search

variable {c : Char} {cs rest : List Char} {t : Token} {words : StopWords} {b : Bool}

/-! ## Words at their ends -/

/-- There is no blank at either end. -/
def Trimmed (cs : List Char) : Prop :=
  (∀ ch ∈ cs.head?, Text.isBlank ch = false) ∧ ∀ ch ∈ cs.getLast?, Text.isBlank ch = false

theorem trimmed_stripChars (cs : List Char) : Trimmed (Text.stripChars cs) :=
  ⟨fun _ h => Text.isBlank_head_stripChars h, fun _ h => Text.isBlank_getLast_stripChars h⟩

theorem trimmed_of_forall_mem (h : ∀ ch ∈ cs, Text.isBlank ch = false) : Trimmed cs :=
  ⟨fun ch hch => h ch (List.mem_of_mem_head? hch),
    fun ch hch => h ch (List.mem_of_mem_getLast? hch)⟩

theorem not_isBlank_of_isWordChar (h : isWordChar c = true) : Text.isBlank c = false := by
  simp only [isWordChar, Bool.and_eq_true, Bool.not_eq_true'] at h
  exact h.2

/-- No character of a word is a blank, and neither is the star behind it. -/
theorem Lexeme.trimmed_word {w : List Char} (h : Lexeme c cs (.word w b) rest) : Trimmed w := by
  have hstar : Text.isBlank '*' = false := by decide
  refine trimmed_of_forall_mem fun ch hch => ?_
  cases h with
  | @word _ cs _ hc hcs _ =>
    have hrun : ∀ d ∈ c :: cs, isWordChar d = true := List.forall_mem_cons.mpr ⟨hc, hcs⟩
    exact not_isBlank_of_isWordChar (hrun ch hch)
  | @starred _ cs _ hc hcs =>
    have hrun : ∀ d ∈ c :: cs, isWordChar d = true := List.forall_mem_cons.mpr ⟨hc, hcs⟩
    rcases List.mem_append.mp hch with hch | hch
    · exact not_isBlank_of_isWordChar (hrun ch hch)
    · rwa [List.mem_singleton.mp hch]

/-! ## Keywords -/

/-- The words that are no terms, in upper case. No letter outside ASCII has letters of these words
alone as its upper case, so it is enough that `toUpper` knows those of ASCII. -/
def keywords : List String := ["AND", "OR", "NEAR", "NOT"]

theorem ofWord?_eq_none_iff :
    Keyword.ofWord? cs = none ↔ (String.ofList cs).toUpper ∉ keywords := by
  have hupper : (String.ofList cs).toUpper.toList = cs.map Char.toUpper := by
    simp [String.toUpper]
  simp only [keywords, List.mem_cons, List.not_mem_nil, or_false, not_or, ← String.toList_inj,
    hupper]
  unfold Keyword.ofWord?
  constructor
  · intro h
    refine ⟨?_, ?_, ?_, ?_⟩ <;> intro he <;> simp [he] at h
  · intro h
    simp_all

/-! ## Terms -/

/-- What a term has to be to stand in a tree when `words` are left out. -/
structure WellFormed (words : StopWords) (u : Term) : Prop where
  ne_empty : u.word ≠ ""
  fold_notMem : Text.fold u.word ∉ words.words
  quote_notMem : '"' ∉ u.word.toList
  trimmed : Trimmed u.word.toList
  one_word : u.form ≠ .literal →
    ∀ ch ∈ u.word.toList, isPunctuation ch = false ∧ Text.isBlank ch = false
  no_keyword : u.form ≠ .literal → u.word.toUpper ∉ keywords

theorem Clean.one_word {u : Term} (h : Clean u) (hf : u.form ≠ .literal) :
    ∀ ch ∈ u.word.toList, isPunctuation ch = false ∧ Text.isBlank ch = false := by
  intro ch hch
  have hword := h.word hf ch hch
  simpa [isWordChar] using hword

theorem wellFormed_of_mem_termTree {m : Modifiers} {u : Term}
    (h : u ∈ (termTree words cs m).terms) (hclean : Clean u) (hcs : Trimmed cs)
    (hk : m.form ≠ .literal → Keyword.ofWord? cs = none) : WellFormed words u := by
  obtain ⟨hne, hstop, rfl⟩ := mem_terms_termTree h
  exact {
    ne_empty := by simpa using hne
    fold_notMem := by simpa [StopWords.contains] using hstop
    quote_notMem := hclean.quote
    trimmed := by simpa using hcs
    one_word := hclean.one_word
    no_keyword := fun hf => ofWord?_eq_none_iff.mp (hk hf) }

theorem Lexeme.yields_wellFormed (h : Lexeme c cs t rest) (words : StopWords) :
    t.Yields words (WellFormed words) := by
  have hclean := h.yields_clean words
  cases t with
  | word w b =>
    intro hk m u hu
    exact wellFormed_of_mem_termTree hu (hclean hk m u hu) h.trimmed_word fun _ => hk
  | phrase w =>
    intro m u hu
    -- a phrase may well be a keyword, as it is matched to the letter
    exact wellFormed_of_mem_termTree hu (hclean m u hu) (trimmed_stripChars w)
      fun hf => absurd rfl hf
  | mark ch => trivial

theorem wellFormed_buildText (text : String) (default : Conjunction) (words : StopWords) :
    ∀ u ∈ (buildText text default words).terms, WellFormed words u := by
  refine forall_mem_terms_build ?_ (by simp [Tree.terms]) fun t ht => ?_
  · intro u g hu
    exact ⟨hu.ne_empty, hu.fold_notMem, hu.quote_notMem, hu.trimmed, hu.one_word, hu.no_keyword⟩
  · obtain ⟨c, w, rest, hlex⟩ := exists_lexeme_of_mem_tokens ht
    exact hlex.yields_wellFormed words

/-- **Terms are well-formed.** Every text is read as a tree of which each leaf is a well-formed
term, or as no tree at all. -/
theorem wellFormed_of_parse (text : String) (default : Conjunction) (words : StopWords) :
    ∃ tree, parse text default words = .ok tree ∧ (tree.Whole ∨ tree = .absent) ∧
      ∀ u ∈ tree.terms, WellFormed words u :=
  ⟨_, parseFrom_between (.inr rfl) words default _ [] text.toList,
    Parsed.build (.inr rfl) words default _ _, wellFormed_buildText text default words⟩

end Search

end FullText
