import Mathlib.Data.List.Basic
import FullText.Proofs.Decoding
import FullText.Proofs.Exported

/-!
# Queries on lines

Exported as text, each query takes as many lines as it has itself (`pieces_joinLines`). What can
bring a line feed into a query is a phrase with one in it, and nothing else
(`feed_mem_text_iff`), so without such phrases there is one line to a query (`text_export_lines`).
-/

namespace FullText

/-! ## Pieces between line feeds -/

namespace Text

variable {cs l : List Char} {c : Char}

/-- The pieces of a text between its line feeds. -/
def pieces (text : String) : List String := (text.toList.splitOn '\n').map String.ofList

/-- No piece holds what is split at. -/
theorem notMem_of_mem_splitOn (h : l ∈ cs.splitOn c) : c ∉ l := by
  induction cs generalizing l with
  | nil =>
    rw [List.splitOn_nil, List.mem_singleton] at h
    rw [h]
    exact List.not_mem_nil
  | cons d cs ih =>
    rw [List.splitOn_cons_eq_if_modifyHead] at h
    split at h
    · rcases List.mem_cons.mp h with rfl | h
      · exact List.not_mem_nil
      · exact ih h
    · next hd =>
      obtain ⟨p, ps, hsplit⟩ := List.exists_cons_of_ne_nil (List.splitOn_ne_nil c cs)
      rw [hsplit] at h ih
      rcases List.mem_cons.mp h with rfl | h
      · have hne : c ≠ d := fun heq => hd (beq_iff_eq.mpr heq.symm)
        exact List.not_mem_cons_of_ne_of_not_mem hne (ih (.head _))
      · exact ih (.tail _ h)

/-- Texts that are joined fall into the pieces that each of them falls into. -/
theorem splitOn_joined {ls : List (List Char)} (h : ls ≠ []) :
    ([c].intercalate ls).splitOn c = ls.flatMap (List.splitOn c) := by
  induction ls with
  | nil => exact absurd rfl h
  | cons l ls ih =>
    cases ls with
    | nil => simp
    | cons l' ls =>
      rw [List.intercalate_cons_cons, List.append_assoc, List.singleton_append,
        List.splitOn_append_cons_self, ih (by simp), ← List.flatMap_cons]

theorem pieces_of_notMem {text : String} (h : '\n' ∉ text.toList) : pieces text = [text] := by
  rw [pieces, List.splitOn_eq_singleton h, List.map_singleton, String.ofList_toList]

theorem feed_notMem_of_mem_pieces {text piece : String} (h : piece ∈ pieces text) :
    '\n' ∉ piece.toList := by
  obtain ⟨l, hl, rfl⟩ := List.mem_map.mp h
  rw [String.toList_ofList]
  exact notMem_of_mem_splitOn hl

end Text

namespace Format

open Text (pieces)

variable {lines : List String}

theorem pieces_joinLines (h : lines ≠ []) : pieces (joinLines lines) = lines.flatMap pieces := by
  have hfeed : "\n".toList = ['\n'] := by decide
  unfold pieces joinLines
  rw [String.toList_intercalate, hfeed, Text.splitOn_joined (by simpa), List.map_flatMap,
    List.flatMap_map]

theorem pieces_joinLines_eq_iff (h : lines ≠ []) :
    pieces (joinLines lines) = lines ↔ ∀ line ∈ lines, '\n' ∉ line.toList := by
  constructor
  · intro heq line hline
    rw [← heq] at hline
    exact Text.feed_notMem_of_mem_pieces hline
  · intro hlines
    rw [pieces_joinLines h,
      List.flatMap_congr fun line hline => Text.pieces_of_notMem (hlines line hline)]
    simp

end Format

/-! ## Line feeds in queries -/

namespace Query

variable {ts : List Token} {form : TermForm} {word : List Char} {x : Term}

/-- Nothing but the word of an operand can bring a line feed into a query. -/
theorem feed_mem_token_iff {t : Token} :
    '\n' ∈ t.write ↔ ∃ form word, t = .operand form word ∧ '\n' ∈ word := by
  have hstart (form : TermForm) : '\n' ∉ start form := by cases form <;> decide
  have hstop (form : TermForm) : '\n' ≠ stop form := by cases form <;> decide
  cases t with
  | operand form word => simp [Token.write, toList_write, hstart, hstop]
  | conjunction c => cases c <;> simp [Token.write] <;> decide
  | _ => simp [Token.write]

theorem feed_mem_write_iff :
    '\n' ∈ write ts ↔ ∃ form word, .operand form word ∈ ts ∧ '\n' ∈ word := by
  rw [write, List.mem_flatMap]
  constructor
  · rintro ⟨t, ht, hfeed⟩
    obtain ⟨form, word, rfl, hword⟩ := feed_mem_token_iff.mp hfeed
    exact ⟨form, word, ht, hword⟩
  · rintro ⟨form, word, ht, hword⟩
    exact ⟨_, ht, feed_mem_token_iff.mpr ⟨form, word, rfl, hword⟩⟩

theorem mem_ofTree_of_mem_terms {u : Tree} (h : x ∈ u.terms) :
    .operand x.form x.word.toList ∈ ofTree u := by
  induction u with
  | leaf l =>
    cases l with
    | term y =>
      obtain rfl := List.mem_singleton.mp h
      show _ ∈ ofTerm x
      unfold ofTerm
      split <;> simp
    | _ => exact absurd h (by simp [Tree.terms])
  | join l r c g e ihl ihr =>
    have hlr : .operand x.form x.word.toList ∈ ofTree l ∨
        .operand x.form x.word.toList ∈ ofTree r :=
      (List.mem_append.mp h).imp ihl ihr
    cases g <;> simpa [ofTree] using hlr

end Query

/-! ## Line feeds in phrases -/

namespace Search

/-- The token is no phrase with a line feed in it, but for the blanks at its ends. -/
def Token.OnOneLine : Token → Prop
  | .phrase cs => '\n' ∉ Text.stripChars cs
  | _ => True

instance : DecidablePred Token.OnOneLine
  | .phrase cs => inferInstanceAs (Decidable ('\n' ∉ Text.stripChars cs))
  | .word _ _ => .isTrue trivial
  | .mark _ => .isTrue trivial

/-- No phrase of the text has a line feed in it. -/
def PhrasesOnOneLine (text : String) : Prop := ∀ t ∈ tokens text.toList, t.OnOneLine

instance (text : String) : Decidable (PhrasesOnOneLine text) :=
  List.decidableBAll Token.OnOneLine (tokens text.toList)

theorem isWordChar_feed : isWordChar '\n' = false := by decide

theorem feed_notMem_of_isWordChar {cs : List Char} (h : ∀ ch ∈ cs, isWordChar ch = true) :
    '\n' ∉ cs := by
  intro hfeed
  exact absurd (h _ hfeed) (by simp [isWordChar_feed])

/-- A line feed in a term comes from a phrase. -/
theorem feed_notMem_buildText {text : String} (h : PhrasesOnOneLine text) (default : Conjunction)
    (words : StopWords) : ∀ u ∈ (buildText text default words).terms, '\n' ∉ u.word.toList := by
  refine forall_mem_terms_build (fun _ _ hu => hu) (by simp [Tree.terms]) fun t ht => ?_
  obtain ⟨c, w, rest, hlex⟩ := exists_lexeme_of_mem_tokens ht
  have hyields {cs : List Char} (hcs : '\n' ∉ cs) (m : Modifiers) :
      ∀ u ∈ (termTree words cs m).terms, '\n' ∉ u.word.toList := by
    intro u hu
    obtain ⟨-, -, rfl⟩ := mem_terms_termTree hu
    rwa [String.toList_ofList]
  cases hlex with
  | word hc hcs =>
    exact fun _ m => hyields (feed_notMem_of_isWordChar (List.forall_mem_cons.mpr ⟨hc, hcs⟩)) _
  | starred hc hcs =>
    have hrun := feed_notMem_of_isWordChar (List.forall_mem_cons.mpr ⟨hc, hcs⟩)
    exact fun _ m => hyields (List.not_mem_append hrun (by simp)) _
  | phrase => exact fun m => hyields (h _ ht) _
  | unclosed => exact fun m => hyields (h _ ht) _
  | mark => trivial

end Search

namespace Conversion

variable {words : StopWords} {query : Option String}

/-- A literal term of the tree has a line feed in it. -/
def SpansLines (c : Conversion) : Prop :=
  ∃ u ∈ c.tree.terms, u.form = .literal ∧ '\n' ∈ u.word.toList

theorem feed_mem_text_iff : '\n' ∈ (outcomeOf words query).text.toList ↔
    (outcomeOf words query).SpansLines := by
  show '\n' ∈ (String.ofList _).toList ↔ ∃ u ∈ (treeOf words query).terms, _
  rw [String.toList_ofList, Query.feed_mem_write_iff]
  constructor
  · rintro ⟨form, word, hoperand, hfeed⟩
    obtain ⟨u, hu, rfl, rfl⟩ := Query.exists_term_of_mem_ofTree hoperand
    refine ⟨u, hu, ?_, hfeed⟩
    by_contra hform
    have hword := (clean_of_mem_treeOf hoperand).2 hform
    exact Search.feed_notMem_of_isWordChar hword hfeed
  · rintro ⟨u, hu, -, hfeed⟩
    exact ⟨_, _, Query.mem_ofTree_of_mem_terms hu, hfeed⟩

theorem not_spansLines {text : String} (h : Search.PhrasesOnOneLine text) (words : StopWords) :
    ¬(outcomeOf words (some text)).SpansLines := by
  rintro ⟨u, hu, -, hfeed⟩
  have hbuilt := Tree.mem_terms_repaired hu
  exact Search.feed_notMem_buildText h .and words u hbuilt hfeed

end Conversion

/-- **Queries on lines.** Expressions, of which there are some, can be converted and exported as
text. The lines of the text are those of the queries, one after the other. Each query has a line of
its own exactly if no literal term of a tree has a line feed in it, and so if no phrase has one. -/
theorem text_export_lines (words : StopWords) (queries : List String) (h : queries ≠ []) :
    ∃ conversions text, queries.mapM (fun q => Conversion.ofQuery words (some q)) =
        .ok conversions ∧
      Format.text.render conversions = .ok text ∧
      Text.pieces text = conversions.flatMap (fun c => Text.pieces c.text) ∧
      (Text.pieces text = conversions.map (·.text) ↔ ∀ c ∈ conversions, ¬c.SpansLines) ∧
      ((∀ q ∈ queries, Search.PhrasesOnOneLine q) →
        Text.pieces text = conversions.map (·.text)) := by
  have hconversions : queries.mapM (fun q => Conversion.ofQuery words (some q)) =
      .ok (queries.map fun q => Conversion.outcomeOf words (some q)) :=
    Except.mapM_eq_ok fun q _ => Conversion.ofQuery_outcomeOf words (some q)
  generalize hall : (queries.map fun q => Conversion.outcomeOf words (some q)) = conversions
    at hconversions
  have hne : conversions.map (·.text) ≠ [] := by
    rw [← hall]
    simpa using h
  have hspans : ∀ c ∈ conversions, '\n' ∉ c.text.toList ↔ ¬c.SpansLines := by
    rw [← hall]
    exact List.forall_mem_map.mpr fun q _ => not_congr Conversion.feed_mem_text_iff
  have hiff : Text.pieces (Format.joinLines (conversions.map (·.text))) =
      conversions.map (·.text) ↔ ∀ c ∈ conversions, ¬c.SpansLines := by
    rw [Format.pieces_joinLines_eq_iff hne, List.forall_mem_map]
    exact forall₂_congr hspans
  refine ⟨conversions, _, hconversions, rfl, ?_, hiff, fun hqueries => hiff.mpr ?_⟩
  · rw [Format.pieces_joinLines hne, List.flatMap_map]
  · rw [← hall]
    exact List.forall_mem_map.mpr fun q hq => Conversion.not_spansLines (hqueries q hq) words

/-- A phrase, a line that is left empty, and a phrase with a line feed behind its last word. -/
theorem phrases_on_lines :
    ∃ conversions text, ["a \"b c\"", "-a", "\"b\n\""].mapM
        (fun q => Conversion.ofQuery .empty (some q)) = .ok conversions ∧
      Format.text.render conversions = .ok text ∧
      Text.pieces text = ["FORMSOF(INFLECTIONAL, a) AND \"b c\"", "", "\"b\""] := by
  obtain ⟨conversions, text, hconversions, htext, -, -, hlines⟩ :=
    text_export_lines .empty ["a \"b c\"", "-a", "\"b\n\""] (by simp)
  have hsame := hconversions.symm.trans
    (Except.mapM_eq_ok fun q _ => Conversion.ofQuery_outcomeOf .empty (some q))
  refine ⟨conversions, text, hconversions, htext, (hlines ?_).trans ?_⟩
  · decide +kernel
  · rw [Except.ok.inj hsame]
    decide +kernel

/-- A phrase with a line feed in it is on two lines, neither of which is the query. -/
theorem phrase_on_two_lines :
    ∃ conversions text, ["\"a\nb\""].mapM (fun q => Conversion.ofQuery .empty (some q)) =
        .ok conversions ∧
      Format.text.render conversions = .ok text ∧ Text.pieces text = ["\"a", "b\""] ∧
      Text.pieces text ≠ conversions.map (·.text) := by
  exact ⟨_, _, Except.mapM_eq_ok fun q _ => Conversion.ofQuery_outcomeOf .empty (some q), rfl,
    by decide +kernel, by decide +kernel⟩

end FullText
