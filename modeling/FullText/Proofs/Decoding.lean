import FullText.Proofs.Converted
import FullText.Proofs.Terms

/-!
# Queries read back

An operand ends at the first character that can end it, and no term holds that character, so the
text of a query has one reading: its tokens (`read_conversion`).
-/

namespace FullText

namespace Query

variable {t : Token} {ts : List Token} {cs rest word : List Char} {form : TermForm} {n : Nat}

/-! ## Operands -/

/-- The character that ends an operand. -/
def stop : TermForm → Char
  | .literal => '"'
  | _ => ')'

/-- What stands in front of the word of an operand. -/
def start : TermForm → List Char
  | .inflectional => "FORMSOF(INFLECTIONAL, ".toList
  | .thesaurus => "FORMSOF(THESAURUS, ".toList
  | .literal => "\"".toList

/-- An operand does not hold the character that ends it. -/
def Token.Closed : Token → Prop
  | .operand form word => stop form ∉ word
  | _ => True

theorem toList_write (form : TermForm) (word : String) :
    (form.write word).toList = start form ++ (word.toList ++ [stop form]) := by
  cases form <;>
  · unfold TermForm.write start
    rw [String.toList_append, String.toList_append, List.append_assoc]
    rfl

theorem dropStart?_append (start rest : List Char) :
    dropStart? start (start ++ rest) = some rest := by
  simp [dropStart?]

theorem take?_operand (h : stop form ∉ word) (rest : List Char) :
    take? ((form.write (String.ofList word)).toList ++ rest) = some (.operand form word, rest) := by
  have hstop : ∀ ch ∈ (stop form :: rest).head?, (ch != stop form) = false := by
    rintro ch ⟨⟩
    simp
  have hdrop := dropWhile_run (bne_of_notMem h) hstop
  have htake := takeWhile_run (bne_of_notMem h) hstop
  have hwrite : (form.write (String.ofList word)).toList ++ rest =
      start form ++ (word ++ stop form :: rest) := by
    rw [toList_write, String.toList_ofList]
    simp
  rw [hwrite]
  generalize word ++ stop form :: rest = cs at hdrop htake
  unfold take? starts
  simp only [List.findSome?_cons]
  cases form with
  | inflectional =>
    rw [show dropStart? "FORMSOF(INFLECTIONAL, ".toList (start .inflectional ++ cs) = some cs from
      dropStart?_append _ _]
    simp only [stop] at hdrop htake
    simp only [hdrop, htake]
  | thesaurus =>
    rw [show dropStart? "FORMSOF(INFLECTIONAL, ".toList (start .thesaurus ++ cs) = none from rfl,
      show dropStart? "FORMSOF(THESAURUS, ".toList (start .thesaurus ++ cs) = some cs from
        dropStart?_append _ _]
    simp only [stop] at hdrop htake
    simp only [hdrop, htake]
  | literal =>
    rw [show dropStart? "FORMSOF(INFLECTIONAL, ".toList (start .literal ++ cs) = none from rfl,
      show dropStart? "FORMSOF(THESAURUS, ".toList (start .literal ++ cs) = none from rfl,
      show dropStart? "\"".toList (start .literal ++ cs) = some cs from dropStart?_append _ _]
    simp only [stop] at hdrop htake
    simp only [hdrop, htake]

/-! ## One token at a time -/

theorem take?_opening (cs : List Char) : take? ('(' :: cs) = some (.opening, cs) := rfl

theorem take?_closing (cs : List Char) : take? (')' :: cs) = some (.closing, cs) := rfl

theorem take?_conjunction (c : Conjunction) (cs : List Char) :
    take? (c.keyword.toList ++ cs) = some (.conjunction c, cs) := by
  cases c <;> rfl

theorem take?_negation (cs : List Char) : take? ("NOT".toList ++ cs) = some (.negation, cs) := rfl

theorem take?_space (cs : List Char) : take? (' ' :: cs) = none := rfl

theorem readFrom_space (n : Nat) (cs : List Char) :
    readFrom (n + 1) (' ' :: cs) = readFrom n cs := rfl

theorem readFrom_of_take? (h : take? cs = some (t, rest)) (n : Nat) :
    readFrom (n + 1) cs = (readFrom n rest).map (t :: ·) := by
  rw [readFrom.eq_def]
  split
  · next hn => exact absurd hn (by simp)
  · exact absurd h (by rw [show take? [] = none from rfl]; simp)
  · rw [take?_space] at h
    exact absurd h (by simp)
  · next steps hn _ _ =>
    obtain rfl := Nat.succ.inj hn
    rw [h]

/-- One token is read back, and enough steps are left for what follows it. -/
theorem readFrom_token (h : t.Closed) (rest : List Char) (hn : (t.write ++ rest).length < n) :
    ∃ m, rest.length < m ∧ readFrom n (t.write ++ rest) = (readFrom m rest).map (t :: ·) := by
  cases t with
  | opening =>
    obtain ⟨m, rfl⟩ : ∃ m, n = m + 1 := ⟨n - 1, by omega⟩
    refine ⟨m, ?_, readFrom_of_take? (take?_opening rest) m⟩
    simpa [Token.write] using hn
  | closing =>
    obtain ⟨m, rfl⟩ : ∃ m, n = m + 1 := ⟨n - 1, by omega⟩
    refine ⟨m, ?_, readFrom_of_take? (take?_closing rest) m⟩
    simpa [Token.write] using hn
  | conjunction c =>
    have hwrite :
        Token.write (.conjunction c) ++ rest = ' ' :: (c.keyword.toList ++ ' ' :: rest) := by
      simp [Token.write]
    rw [hwrite] at hn ⊢
    rw [List.length_cons, List.length_append, List.length_cons] at hn
    have hkeyword : 2 ≤ c.keyword.toList.length := by cases c <;> decide
    obtain ⟨m, rfl⟩ : ∃ m, n = m + 3 := ⟨n - 3, by omega⟩
    refine ⟨m, by omega, ?_⟩
    rw [readFrom_space, readFrom_of_take? (take?_conjunction c _), readFrom_space]
  | negation =>
    have hwrite : Token.write .negation ++ rest = "NOT".toList ++ ' ' :: rest := rfl
    rw [hwrite] at hn ⊢
    rw [List.length_append, List.length_cons, show "NOT".toList.length = 3 from rfl] at hn
    obtain ⟨m, rfl⟩ : ∃ m, n = m + 2 := ⟨n - 2, by omega⟩
    refine ⟨m, by omega, ?_⟩
    rw [readFrom_of_take? (take?_negation _), readFrom_space]
  | operand form word =>
    obtain ⟨m, rfl⟩ : ∃ m, n = m + 1 := ⟨n - 1, by omega⟩
    refine ⟨m, ?_, readFrom_of_take? (take?_operand h rest) m⟩
    rw [Token.write, toList_write] at hn
    simp at hn
    omega

/-- **Reading back.** Tokens whose operands are closed are the only reading of their text. -/
theorem readFrom_write (h : ∀ t ∈ ts, t.Closed) (hn : (write ts).length < n) :
    readFrom n (write ts) = some ts := by
  induction ts generalizing n with
  | nil =>
    obtain ⟨m, rfl⟩ : ∃ m, n = m + 1 := ⟨n - 1, by omega⟩
    rfl
  | cons t ts ih =>
    obtain ⟨ht, hts⟩ := List.forall_mem_cons.mp h
    rw [write_cons] at hn ⊢
    obtain ⟨m, hm, hread⟩ := readFrom_token ht (write ts) hn
    rw [hread, ih hts hm]
    rfl

theorem read?_write (h : ∀ t ∈ ts, t.Closed) : read? (String.ofList (write ts)) = some ts := by
  unfold read?
  rw [String.toList_ofList]
  exact readFrom_write h (Nat.lt_succ_self _)

/-! ## Terms -/

/-- The operands of a tree are its terms. -/
theorem exists_term_of_mem_ofTree {u : Tree} (h : .operand form word ∈ ofTree u) :
    ∃ x ∈ u.terms, x.form = form ∧ x.word.toList = word := by
  induction u with
  | leaf l =>
    cases l with
    | term x =>
      refine ⟨x, List.mem_singleton.mpr rfl, ?_⟩
      rw [show ofTree (.leaf (.term x)) = ofTerm x from rfl] at h
      unfold ofTerm at h
      split at h
      · simpa [eq_comm] using h
      · simpa [eq_comm] using h
    | _ => exact absurd h (by simp [ofTree])
  | join l r c g e ihl ihr =>
    have hlr : .operand form word ∈ ofTree l ∨ .operand form word ∈ ofTree r := by
      cases g <;> simpa [ofTree] using h
    rcases hlr with h | h
    · obtain ⟨x, hx, hform⟩ := ihl h
      exact ⟨x, List.mem_append_left _ hx, hform⟩
    · obtain ⟨x, hx, hform⟩ := ihr h
      exact ⟨x, List.mem_append_right _ hx, hform⟩

end Query

namespace Conversion

open Query

variable {form : TermForm} {word : List Char}

theorem clean_of_mem_treeOf {words : StopWords} {query : Option String}
    (h : .operand form word ∈ ofTree (treeOf words query)) :
    '"' ∉ word ∧ (form ≠ .literal → ∀ ch ∈ word, Search.isWordChar ch = true) := by
  obtain ⟨x, hx, rfl, rfl⟩ := exists_term_of_mem_ofTree h
  have hclean := Search.clean_buildText _ _ _ x (Tree.mem_terms_repaired hx)
  exact ⟨hclean.quote, hclean.word⟩

theorem closed_of_mem_treeOf {words : StopWords} {query : Option String} {t : Token}
    (h : t ∈ ofTree (treeOf words query)) : t.Closed := by
  cases t with
  | operand form word =>
    obtain ⟨hquote, hword⟩ := clean_of_mem_treeOf h
    have hparen (hf : form ≠ .literal) : ')' ∉ word := by
      intro hp
      exact absurd (hword hf _ hp) (by decide)
    cases form with
    | literal => exact hquote
    | inflectional => exact hparen (by simp)
    | thesaurus => exact hparen (by simp)
  | _ => trivial

/-- **Reading.** The text of a conversion is read back as the tokens of its tree, also from and up
to each place between two tokens, so equal texts have equal tokens. No operand holds a quote, and
one that is not literal is made of word characters. -/
theorem read_conversion :
    (∀ words query, ∃ c, ofQuery words query = .ok c ∧ read? c.text = some (ofTree c.tree) ∧
      (∀ before after, ofTree c.tree = before ++ after →
        c.text.toList = write before ++ write after ∧
          read? (String.ofList (write before)) = some before ∧
          read? (String.ofList (write after)) = some after) ∧
      ∀ form word, .operand form word ∈ ofTree c.tree →
        '"' ∉ word ∧ (form ≠ .literal → ∀ ch ∈ word, Search.isWordChar ch = true)) ∧
    ∀ words query c words' query' c', ofQuery words query = .ok c →
      ofQuery words' query' = .ok c' → c.text = c'.text → ofTree c.tree = ofTree c'.tree := by
  have hread (words : StopWords) (query : Option String) :
      read? (String.ofList (write (ofTree (treeOf words query)))) =
        some (ofTree (treeOf words query)) :=
    read?_write fun t ht => closed_of_mem_treeOf ht
  constructor
  · intro words query
    refine ⟨_, ofQuery_eq words query, hread words query, ?_, fun form word h => ?_⟩
    · intro before after h
      have hclosed : ∀ t ∈ before ++ after, t.Closed := by
        rw [← h]
        exact fun t ht => closed_of_mem_treeOf ht
      obtain ⟨hbefore, hafter⟩ := List.forall_mem_append.mp hclosed
      refine ⟨?_, read?_write hbefore, read?_write hafter⟩
      rw [String.toList_ofList, h, write_append]
    · exact clean_of_mem_treeOf h
  · intro words query c words' query' c' hc hc' htext
    rw [ofQuery_eq] at hc hc'
    obtain rfl := Except.ok.inj hc
    obtain rfl := Except.ok.inj hc'
    have h := hread words query
    rw [show write (ofTree (treeOf words query)) = write (ofTree (treeOf words' query')) from
      String.ofList_injective htext, hread words' query'] at h
    exact (Option.some.inj h).symm

/-- A starred word and a phrase with the same text. -/
theorem starred_word_read_as_phrase :
    ∃ c c', ofQuery .empty (some "ab*") = .ok c ∧ ofQuery .empty (some " \"ab*\" ") = .ok c' ∧
      c.text = c'.text ∧ ofTree c.tree = ofTree c'.tree := by
  have htext : String.ofList (write (ofTree (treeOf .empty (some "ab*")))) =
      String.ofList (write (ofTree (treeOf .empty (some " \"ab*\" ")))) := by
    decide +kernel
  exact ⟨_, _, ofQuery_eq _ _, ofQuery_eq _ _, htext,
    read_conversion.2 .empty _ _ .empty _ _ (ofQuery_eq _ _) (ofQuery_eq _ _) htext⟩

end Conversion

end FullText
