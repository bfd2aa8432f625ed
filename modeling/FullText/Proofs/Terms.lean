import FullText.Proofs.Reading

/-!
# The terms that tokens build

A property of terms that does not look at parentheses holds of each term of a tree if it holds of
the terms of the words and phrases it is built from (`forall_mem_terms_build`). Words are runs of
word characters, and phrases hold no quote, so no term holds a quote, and one that is not literal is
made of word characters (`clean_buildText`).
-/

namespace FullText

namespace Search

variable {c : Char} {cs rest : List Char} {t : Token} {ts : List Token} {words : StopWords}
  {default : Conjunction} {m : Modifiers} {root node : Tree} {P : Term → Prop}

/-! ## From tokens to terms -/

theorem terms_attach (root node : Tree) (c : Conjunction) :
    (attach root node c).terms = root.terms ++ node.terms := by
  by_cases hn : node = .absent
  · rw [hn, attach_absent_right]
    exact (List.append_nil _).symm
  by_cases hr : root = .absent
  · rw [hr, attach_absent_left]
    rfl
  · rw [attach_of_ne_absent hr hn]
    rfl

/-- Parentheses are marked on one term at most. -/
theorem mem_terms_withGroup {u : Term} {g : Bool} (h : u ∈ (node.withGroup g).terms) :
    ∃ v ∈ node.terms, ∃ g', u = { v with grouped := g' } := by
  cases node with
  | leaf l =>
    cases l with
    | term v => exact ⟨v, List.mem_singleton.mpr rfl, g, List.mem_singleton.mp h⟩
    | absent => exact absurd h (by simp [Tree.withGroup, Tree.terms])
    | foreign f => exact absurd h (by simp [Tree.withGroup, Tree.terms])
  | join l r c g' e => exact ⟨u, h, u.grouped, rfl⟩

theorem mem_terms_termTree {u : Term} (h : u ∈ (termTree words cs m).terms) :
    cs ≠ [] ∧ words.contains (String.ofList cs) = false ∧
      u = { word := String.ofList cs, form := m.form, exclude := m.exclude } := by
  unfold termTree at h
  split at h
  · exact absurd h (by simp [Tree.terms])
  · next hcs =>
    obtain ⟨hne, hw⟩ := not_or.mp hcs
    exact ⟨hne, by simpa using hw, List.mem_singleton.mp h⟩

/-- Each term that the token stands for has the property. -/
def Token.Yields (words : StopWords) (P : Term → Prop) : Token → Prop
  | .word cs starred => Keyword.ofWord? cs = none →
    ∀ m : Modifiers, ∀ u ∈ (termTree words cs (m.literalIf starred)).terms, P u
  | .phrase cs =>
    ∀ m : Modifiers, ∀ u ∈ (termTree words (Text.stripChars cs) (m.literalIf true)).terms, P u
  | .mark _ => True

theorem splitBlock_subset (b : Bracket) (inner : Nat) (ts : List Token) :
    (splitBlock b inner ts).1 ⊆ ts ∧ (splitBlock b inner ts).2 ⊆ ts := by
  induction ts generalizing inner with
  | nil => exact ⟨List.Subset.refl _, List.Subset.refl _⟩
  | cons t ts ih =>
    rcases splitBlock_cons b inner t with h | ⟨inner', h⟩
    · rw [h]
      exact ⟨List.nil_subset _, List.subset_cons_self _ _⟩
    · rw [h]
      exact ⟨List.cons_subset_cons t (ih inner').1, List.subset_cons_of_subset t (ih inner').2⟩

theorem forall_mem_terms_build (hg : ∀ u g, P u → P { u with grouped := g })
    (hroot : ∀ u ∈ root.terms, P u) (hts : ∀ t ∈ ts, t.Yields words P) :
    ∀ u ∈ (build words default m root ts).terms, P u := by
  have hattach {root node : Tree} {c : Conjunction} (hr : ∀ u ∈ root.terms, P u)
      (hn : ∀ u ∈ node.terms, P u) : ∀ u ∈ (attach root node c).terms, P u := by
    rw [terms_attach]
    exact List.forall_mem_append.mpr ⟨hr, hn⟩
  fun_induction build words default m root ts with
  | case1 => exact hroot
  | case2 _ _ _ cs starred ts k hk ih => exact ih hroot fun t ht => hts t (.tail _ ht)
  | case3 _ _ _ cs starred ts hk ih =>
    exact ih (hattach hroot (hts _ (.head _) hk _)) fun t ht => hts t (.tail _ ht)
  | case4 _ _ _ cs ts ih =>
    exact ih (hattach hroot (hts _ (.head _) _)) fun t ht => hts t (.tail _ ht)
  | case5 _ _ _ c ts hb ih => exact ih hroot fun t ht => hts t (.tail _ ht)
  | case6 _ _ _ c ts b hb inside inner node ihnode _ ih =>
    obtain ⟨hin, hout⟩ := splitBlock_subset b 0 ts
    have hnode := ihnode (by simp [Tree.terms]) fun t ht => hts t (.tail _ (hin ht))
    refine ih (hattach hroot fun u hu => ?_) fun t ht => hts t (.tail _ (hout ht))
    obtain ⟨v, hv, g, rfl⟩ := mem_terms_withGroup hu
    exact hg v g (hnode v hv)

/-! ## Words and phrases -/

theorem exists_lexeme_of_mem_tokens (h : t ∈ tokens cs) : ∃ c w rest, Lexeme c w t rest := by
  induction cs using lexeme_induction with
  | nil =>
    rw [tokens_nil] at h
    exact absurd h (by simp)
  | blank c cs hb ih =>
    rw [tokens_of_isBlank hb] at h
    exact ih h
  | lexeme c w u rest hb hlex ih =>
    rw [hlex.tokens hb] at h
    rcases List.mem_cons.mp h with rfl | h
    · exact ⟨c, w, rest, hlex⟩
    · exact ih h

theorem mem_of_mem_stripChars (h : c ∈ Text.stripChars cs) : c ∈ cs := by
  have hdrop := (List.dropWhile_sublist _).mem (List.mem_reverse.mp h)
  exact (List.dropWhile_sublist _).mem (List.mem_reverse.mp hdrop)

/-- The term holds no quote, and is made of word characters unless it is literal. -/
structure Clean (u : Term) : Prop where
  quote : '"' ∉ u.word.toList
  word : u.form ≠ .literal → ∀ ch ∈ u.word.toList, isWordChar ch = true

theorem quote_notMem_of_isWordChar (h : ∀ ch ∈ cs, isWordChar ch = true) : '"' ∉ cs := by
  intro hq
  exact absurd (h _ hq) (by simp [isWordChar_quote])

theorem clean_of_literal {u : Term} (hq : '"' ∉ u.word.toList) (hf : u.form = .literal) : Clean u :=
  ⟨hq, fun hn => absurd hf hn⟩

theorem yields_phrase (hcs : '"' ∉ cs) (words : StopWords) :
    (Token.phrase cs).Yields words Clean := by
  intro m u hu
  obtain ⟨-, -, rfl⟩ := mem_terms_termTree hu
  refine clean_of_literal ?_ rfl
  rw [String.toList_ofList]
  exact fun hq => hcs (mem_of_mem_stripChars hq)

theorem Lexeme.yields_clean (h : Lexeme c cs t rest) (words : StopWords) :
    t.Yields words Clean := by
  cases h with
  | word hc hcs =>
    intro _ m u hu
    obtain ⟨-, -, rfl⟩ := mem_terms_termTree hu
    have hw : ∀ ch ∈ (String.ofList (c :: cs)).toList, isWordChar ch = true := by
      rw [String.toList_ofList]
      exact List.forall_mem_cons.mpr ⟨hc, hcs⟩
    exact ⟨quote_notMem_of_isWordChar hw, fun _ => hw⟩
  | @starred _ cs _ hc hcs =>
    intro _ m u hu
    obtain ⟨-, -, rfl⟩ := mem_terms_termTree hu
    refine clean_of_literal ?_ rfl
    rw [String.toList_ofList]
    refine List.not_mem_append ?_ (by simp)
    exact quote_notMem_of_isWordChar (List.forall_mem_cons.mpr ⟨hc, hcs⟩)
  | phrase hcs => exact yields_phrase hcs words
  | unclosed hcs => exact yields_phrase hcs words
  | mark => trivial

theorem clean_buildText (text : String) (default : Conjunction) (words : StopWords) :
    ∀ u ∈ (buildText text default words).terms, Clean u := by
  refine forall_mem_terms_build (fun u g h => ⟨h.quote, h.word⟩) (by simp [Tree.terms]) ?_
  intro t ht
  obtain ⟨c, w, rest, hlex⟩ := exists_lexeme_of_mem_tokens ht
  exact hlex.yields_clean words

end Search

end FullText
