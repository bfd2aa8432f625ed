import FullText.Proofs.Closing
import FullText.Proofs.Converted
import FullText.Proofs.FixedPoint
import FullText.Proofs.Positives
import FullText.Proofs.WellFormed

/-!
# Queries of flat expressions

A flat expression is a row of words with a minus sign in front of some. Each word adds a join on top
of the tree of those before it (`buildText_row`). With `AND`, the words in front of the first wanted
one trade places with it, and nothing else changes (`repaired_row_wanted`); with `OR`, only the
wanted words are left (`repaired_row_or`). So the query is the row of their operands
(`flat_query_text`).
-/

namespace FullText

open Search FullText.Tree

/-- A word of a flat expression, with a minus sign in front of it or not. -/
structure SignedWord where
  word : String
  negated : Bool
  deriving DecidableEq, Repr

namespace SignedWord

def text (w : SignedWord) : String := if w.negated then "-" ++ w.word else w.word

/-- What a query says of the word. -/
def operand (w : SignedWord) : String :=
  (if w.negated then "NOT " else "") ++ "FORMSOF(INFLECTIONAL, " ++ w.word ++ ")"

def term (w : SignedWord) : Term := { word := w.word, exclude := w.negated }

/-- The words with the first wanted one in front of those before it. None if no word is wanted. -/
def wantedFirst (ws : List SignedWord) : List SignedWord :=
  match ws.dropWhile (·.negated) with
  | [] => []
  | w :: rest => w :: ws.takeWhile (·.negated) ++ rest

/-- Either no word is wanted, or there is a first one that is. -/
theorem wantedFirst_cases (ws : List SignedWord) :
    ((∀ w ∈ ws, w.negated = true) ∧ wantedFirst ws = []) ∨
      ∃ us w vs, ws = us ++ w :: vs ∧ (∀ u ∈ us, u.negated = true) ∧ w.negated = false ∧
        wantedFirst ws = w :: us ++ vs := by
  have hneg : ∀ w ∈ ws.takeWhile (·.negated), w.negated = true :=
    List.all_eq_true.mp List.all_takeWhile
  have hws := List.takeWhile_append_dropWhile (p := (·.negated)) (l := ws)
  cases hd : ws.dropWhile (·.negated) with
  | nil =>
    rw [hd, List.append_nil] at hws
    rw [hws] at hneg
    exact .inl ⟨hneg, by rw [wantedFirst, hd]⟩
  | cons w rest =>
    have hw := List.head?_dropWhile_not (·.negated) ws
    rw [hd] at hw hws
    exact .inr ⟨_, w, rest, hws.symm, hneg, by simpa using hw, by rw [wantedFirst, hd]⟩

/-- The word is one, stands for itself, and is no stop word. -/
structure Plain (words : StopWords) (w : SignedWord) : Prop where
  ne_empty : w.word ≠ ""
  characters : ∀ ch ∈ w.word.toList, isPunctuation ch = false ∧ Text.isBlank ch = false
  no_keyword : w.word.toUpper ∉ keywords
  no_stopWord : words.contains w.word = false

end SignedWord

open SignedWord

variable {words : StopWords} {c : Conjunction} {root l r : Tree} {w : SignedWord}
  {us vs ws : List SignedWord}

/-- The tree of `root` and the words behind it, each joined to what is in front of it. -/
def row (c : Conjunction) (root : Tree) (ws : List SignedWord) : Tree :=
  ws.foldl (fun t w => attach t (.term w.term) c) root

theorem row_cons (c : Conjunction) (root : Tree) (w : SignedWord) (ws : List SignedWord) :
    row c root (w :: ws) = row c (attach root (.term w.term) c) ws := rfl

theorem row_append (c : Conjunction) (root : Tree) (vs ws : List SignedWord) :
    row c root (vs ++ ws) = row c (row c root vs) ws :=
  List.foldl_append

/-! ## Reading a row -/

/-- The tokens of a plain word, whatever comes behind it. -/
theorem SignedWord.Plain.tokens_append (h : Plain words w) {cs : List Char} (hcs : Parted cs) :
    tokens (w.word.toList ++ cs) = .word w.word.toList false :: tokens cs := by
  have hword : ∀ ch ∈ w.word.toList, isWordChar ch = true := by
    intro ch hch
    obtain ⟨hp, hb⟩ := h.characters ch hch
    simp [isWordChar, hp, hb]
  cases hw : w.word.toList with
  | nil => exact absurd (String.toList_eq_nil_iff.mp hw) h.ne_empty
  | cons d ds =>
    rw [hw] at hword
    obtain ⟨hd, hds⟩ := List.forall_mem_cons.mp hword
    exact (Lexeme.word hd hds hcs).tokens (not_isBlank_of_isWordChar hd)

theorem tokens_minus (cs : List Char) : tokens ('-' :: cs) = .mark '-' :: tokens cs := by
  have hminus : Lexeme '-' [] (.mark '-') cs := .mark (by decide) (by decide)
  exact hminus.tokens (by decide)

/-- A plain word is attached as its term. -/
theorem SignedWord.Plain.build_eq (h : Plain words w) {cs : List Char} (hcs : Parted cs)
    (default c : Conjunction) (root : Tree) :
    build words default { conjunction := c } root (tokens (w.text.toList ++ cs)) =
      build words default { conjunction := default } (attach root (.term w.term) c)
        (tokens cs) := by
  have hkey : Keyword.ofWord? w.word.toList = none :=
    ofWord?_eq_none_iff.mpr (by simpa using h.no_keyword)
  have hterm (m : Modifiers) : termTree words w.word.toList m =
      .term { word := w.word, form := m.form, exclude := m.exclude } := by
    simp [termTree, h.ne_empty, h.no_stopWord]
  unfold text SignedWord.term
  cases w.negated with
  | false =>
    simp only [Bool.false_eq_true, if_false]
    rw [h.tokens_append hcs, build, hkey]
    simp only [hterm]
    rfl
  | true =>
    simp only [if_true, String.toList_append]
    show build words default _ root (tokens ('-' :: (w.word.toList ++ cs))) = _
    rw [tokens_minus, h.tokens_append hcs, build]
    simp only [show Bracket.ofOpener? '-' = none from rfl]
    rw [build, hkey]
    simp only [hterm]
    rfl

/-- A separator ends the word in front of it, and joins it to the next one by `c`. -/
structure Separates (sep : String) (c : Conjunction) : Prop where
  parted : ∀ cs, Parted (sep.toList ++ cs)
  build_eq : ∀ words root cs,
    build words .and { conjunction := .and } root (tokens (sep.toList ++ cs)) =
      build words .and { conjunction := c } root (tokens cs)

theorem separates_blank : Separates " " .and where
  parted cs := by
    rintro ch ⟨⟩
    decide
  build_eq words root cs := by
    show build words .and _ root (tokens (' ' :: cs)) = _
    rw [tokens_of_isBlank (by decide)]

theorem separates_or : Separates " or " .or where
  parted cs := by
    rintro ch ⟨⟩
    decide
  build_eq words root cs := by
    have hor : Lexeme 'o' ['r'] (.word ['o', 'r'] false) (' ' :: cs) := by
      refine .word (by decide) (List.forall_mem_singleton.mpr (by decide)) ?_
      rintro ch ⟨⟩
      decide
    show build words .and _ root (tokens (' ' :: 'o' :: (['r'] ++ ' ' :: cs))) = _
    rw [tokens_of_isBlank (by decide), hor.tokens (by decide), tokens_of_isBlank (by decide), build]
    rfl

theorem build_row {sep : String} (hsep : Separates sep c) (c₀ : Conjunction) (root : Tree)
    (h : ∀ v ∈ w :: ws, Plain words v) :
    build words .and { conjunction := c₀ } root
        (tokens (sep.intercalate ((w :: ws).map text)).toList) =
      row c (attach root (.term w.term) c₀) ws := by
  induction ws generalizing w c₀ root with
  | nil =>
    have hnil : Parted [] := by simp [Parted]
    have := (h w (.head _)).build_eq hnil .and c₀ root
    rw [List.append_nil, tokens_nil, build] at this
    simpa [row] using this
  | cons v ws ih =>
    have hrest := List.forall_mem_cons.mp h
    rw [List.map_cons, List.map_cons, String.intercalate_cons_cons, String.toList_append,
      String.toList_append, List.append_assoc, hrest.1.build_eq (hsep.parted _), hsep.build_eq]
    exact ih c _ hrest.2

/-- **Reading a row.** The tree grows to the left, word by word. -/
theorem buildText_row {sep : String} (hsep : Separates sep c) (h : ∀ v ∈ ws, Plain words v) :
    buildText (sep.intercalate (ws.map text)) .and words = row c .absent ws := by
  cases ws with
  | nil => simp [buildText, tokens_nil, build, row]
  | cons w ws =>
    rw [buildText, build_row hsep .and .absent h, attach_absent_left]
    rfl

/-! ## Repairing a row -/

theorem isExcluded_attach (hl : l ≠ .absent) (hr : r ≠ .absent) (c : Conjunction) :
    (attach l r c).isExcluded = (l.isExcluded && r.isExcluded) := by
  rw [attach_of_ne_absent hl hr]
  rfl

/-- What comes behind a tree that is not excluded does not exclude it. -/
theorem attach_wanted (hne : root ≠ .absent) (he : root.isExcluded = false) (node : Tree)
    (c : Conjunction) :
    attach root node c ≠ .absent ∧ (attach root node c).isExcluded = false := by
  by_cases hn : node = .absent
  · rw [hn, attach_absent_right]
    exact ⟨hne, he⟩
  · rw [isExcluded_attach hne hn, he, Bool.false_and, attach_of_ne_absent hne hn]
    exact ⟨by simp, rfl⟩

theorem row_wanted (hne : root ≠ .absent) (he : root.isExcluded = false) (ws : List SignedWord) :
    (row c root ws).isExcluded = false := by
  induction ws generalizing root with
  | nil => exact he
  | cons w ws ih =>
    obtain ⟨hne, he⟩ := attach_wanted hne he (.term w.term) c
    exact ih hne he

/-- A row of negated words is excluded. -/
theorem row_negated (hroot : root = .absent ∨ root.isExcluded = true)
    (h : ∀ w ∈ ws, w.negated = true) :
    row c root ws = .absent ∨ (row c root ws).isExcluded = true := by
  induction ws generalizing root with
  | nil => exact hroot
  | cons w ws ih =>
    obtain ⟨hw, hws⟩ := List.forall_mem_cons.mp h
    have hterm : Tree.term w.term ≠ .absent := by simp
    rw [row_cons]
    refine ih (.inr ?_) hws
    by_cases h0 : root = .absent
    · rw [h0, attach_absent_left]
      exact hw
    · rw [isExcluded_attach h0 hterm, hroot.resolve_left h0]
      exact hw

theorem allowed_of_ne_near (hc : c ≠ .near) (l r : Tree) : allowed l r c = c := by
  cases c <;> simp_all [allowed]

/-- Operands that are in order are joined as they are read. -/
theorem united_eq_attach (hc : c ≠ .near) (h : l.isExcluded = true → r.isExcluded = true) :
    united c false l r = attach l r c := by
  by_cases hl : l = .absent
  · rw [hl, united_absent_left, attach_absent_left]
  by_cases hr : r = .absent
  · rw [hr, united_absent_right, attach_absent_right]
  rw [united_of_ne_absent hl hr, attach_of_ne_absent hl hr, allowed_of_ne_near hc]
  exact if_neg fun hd => by simp_all

/-- Operands that are not in order trade places. -/
theorem united_eq_attach_swapped (hc : c ≠ .near) (hl : l = .absent ∨ l.isExcluded = true)
    (hr : r ≠ .absent) (he : r.isExcluded = false) : united c false l r = attach r l c := by
  by_cases hla : l = .absent
  · rw [hla, united_absent_left, attach_absent_right]
  rw [united_of_ne_absent hla hr, attach_of_ne_absent hr hla, allowed_of_ne_near hc, he,
    hl.resolve_left hla]
  rfl

theorem settled_false_of_not_isGrouped {t : Tree} (h : t.isGrouped = false) :
    settled false t = t :=
  settled_eq_self (by simp [h]) (by simp)

theorem repaired_term (w : SignedWord) : (Tree.term w.term).repaired false = .term w.term :=
  settled_false_of_not_isGrouped rfl

theorem isGrouped_united_term (c : Conjunction) (t : Tree) (w : SignedWord) :
    (united c false t (.term w.term)).isGrouped = false := by
  by_cases h0 : t = .absent
  · rw [h0, united_absent_left]
    rfl
  · exact isGrouped_united_of_ne_absent h0 (by simp) c false

theorem repaired_attach (root : Tree) (w : SignedWord) (hc : c ≠ .or) :
    (attach root (.term w.term) c).repaired false =
      united c false (root.repaired false) (.term w.term) := by
  by_cases h0 : root = .absent
  · rw [h0, attach_absent_left]
    exact repaired_term w
  · rw [attach_of_ne_absent h0 (by simp), repaired, repaired_term, kept_of_ne_or hc,
      kept_of_ne_or hc]
    exact settled_false_of_not_isGrouped (isGrouped_united_term c _ w)

/-- With `AND`, a row stays as it is if all of it is negated, or if a wanted word comes first. -/
theorem repaired_row (h : (∀ w ∈ ws, w.negated = true) ∨
    root.repaired false ≠ .absent ∧ (root.repaired false).isExcluded = false) :
    (row .and root ws).repaired false = row .and (root.repaired false) ws := by
  induction ws generalizing root with
  | nil => rfl
  | cons w ws ih =>
    have hstep : (attach root (.term w.term) .and).repaired false =
        attach (root.repaired false) (.term w.term) .and := by
      rw [repaired_attach root w (by simp)]
      refine united_eq_attach (by simp) fun he => ?_
      rcases h with h | ⟨-, hr⟩
      · exact h w (.head _)
      · exact absurd hr (by simp [he])
    rw [row_cons, row_cons, ← hstep]
    refine ih (h.imp (fun h v hv => h v (.tail _ hv)) fun ⟨hne, he⟩ => ?_)
    rw [hstep]
    exact attach_wanted hne he _ _

theorem repaired_true (t : Tree) : t.repaired true = settled true (t.repaired false) :=
  (settled_repaired t false true).symm

/-- With `AND`, nothing is left of a row without a wanted word. -/
theorem repaired_row_negated (h : ∀ w ∈ ws, w.negated = true) :
    (row .and .absent ws).repaired true = .absent := by
  have hrow : (row .and .absent ws).repaired false = row .and .absent ws := repaired_row (.inl h)
  rw [repaired_true, hrow]
  rcases row_negated (c := .and) (.inl rfl) h with h0 | he
  · rw [h0]
    rfl
  · simp [settled, he]

/-- With `AND`, the first wanted word trades places with the row in front of it. -/
theorem repaired_row_wanted (h : ∀ u ∈ us, u.negated = true) (hw : w.negated = false) :
    (row .and .absent (us ++ w :: vs)).repaired true =
      row .and (attach (.term w.term) (row .and .absent us) .and) vs := by
  have hterm : Tree.term w.term ≠ .absent := by simp
  have hfront := row_negated (c := .and) (.inl rfl) h
  have hswap : (attach (row .and .absent us) (.term w.term) .and).repaired false =
      attach (.term w.term) (row .and .absent us) .and := by
    have hrow : (row .and .absent us).repaired false = row .and .absent us := repaired_row (.inl h)
    rw [repaired_attach _ w (by simp), hrow]
    exact united_eq_attach_swapped (by simp) hfront hterm hw
  have hwanted := attach_wanted hterm hw (row .and .absent us) .and
  rw [← hswap] at hwanted ⊢
  rw [row_append, row_cons, repaired_true, repaired_row (.inr hwanted)]
  have hrow := row_wanted (c := .and) hwanted.1 hwanted.2 vs
  exact settled_eq_self (fun _ => hrow) fun _ => hrow

theorem isExcluded_kept_or (t : Tree) : (kept .or t).isExcluded = false := by
  rcases kept_cases .or t with h0 | ⟨h1, he⟩
  · rw [h0]
    rfl
  · rw [h1]
    exact he rfl

theorem kept_settled_of_wanted {t : Tree} (h : t.isExcluded = false) (top : Bool) :
    kept c (settled top t) = t := by
  rw [settled_eq_self (fun _ => h) (fun _ => h)]
  exact if_neg (by simp [h])

theorem isExcluded_attach_wanted (root : Tree) (hw : w.negated = false) (c : Conjunction) :
    (attach root (.term w.term) c).isExcluded = false := by
  by_cases h0 : root = .absent
  · rw [h0, attach_absent_left]
    exact hw
  · rw [isExcluded_attach h0 (by simp), show (Tree.term w.term).isExcluded = false from hw,
      Bool.and_false]

/-- With `OR`, a word is dropped unless it is wanted. -/
theorem kept_repaired_attach (root : Tree) (w : SignedWord) :
    kept .or ((attach root (.term w.term) .or).repaired false) =
      if w.negated then kept .or (root.repaired false)
      else attach (kept .or (root.repaired false)) (.term w.term) .or := by
  have hroot := isExcluded_kept_or (root.repaired false)
  have hterm : kept .or (.term w.term) = if w.negated then .absent else .term w.term := by
    simp [kept, isExcluded, SignedWord.term]
  by_cases h0 : root = .absent
  · rw [h0, attach_absent_left, repaired_term, hterm]
    cases w.negated <;> rfl
  · rw [attach_of_ne_absent h0 (by simp), repaired, repaired_term, hterm]
    cases hw : w.negated with
    | true =>
      simp only [if_true]
      rw [united_absent_right, kept_settled_of_wanted hroot]
    | false =>
      simp only [Bool.false_eq_true, if_false]
      rw [united_eq_attach (by simp) (by simp [hroot]),
        kept_settled_of_wanted (isExcluded_attach_wanted _ hw .or)]

theorem kept_repaired_row (root : Tree) (ws : List SignedWord) :
    kept .or ((row .or root ws).repaired false) =
      row .or (kept .or (root.repaired false)) (ws.filter (!·.negated)) := by
  induction ws generalizing root with
  | nil => rfl
  | cons w ws ih =>
    rw [row_cons, ih, kept_repaired_attach]
    cases hw : w.negated with
    | false => simp [hw, row_cons]
    | true => simp [hw]

/-- With `OR`, the wanted words are left. -/
theorem repaired_row_or (ws : List SignedWord) :
    (row .or .absent ws).repaired true = row .or .absent (ws.filter (!·.negated)) := by
  have hsettled (t : Tree) : settled true t = kept .or t := by simp [settled, kept]
  rw [repaired_true, hsettled, kept_repaired_row]
  rfl

/-! ## Writing a row -/

/-- The tree is written as the operands of the words, one after the other. -/
structure Writes (c : Conjunction) (t : Tree) (ws : List SignedWord) : Prop where
  absent_iff : t = .absent ↔ ws = []
  text_eq : String.ofList (Query.write (Query.ofTree t)) =
    (" " ++ c.keyword ++ " ").intercalate (ws.map operand)

theorem writes_absent (c : Conjunction) : Writes c .absent [] where
  absent_iff := by simp
  text_eq := by simp [Query.ofTree]

theorem write_term (w : SignedWord) : w.term.write = w.operand := by
  obtain ⟨word, negated⟩ := w
  cases negated with
  | false =>
    show "FORMSOF(INFLECTIONAL, " ++ word ++ ")" = "" ++ "FORMSOF(INFLECTIONAL, " ++ word ++ ")"
    rw [String.empty_append]
  | true =>
    show "NOT " ++ ("FORMSOF(INFLECTIONAL, " ++ word ++ ")") =
      "NOT " ++ "FORMSOF(INFLECTIONAL, " ++ word ++ ")"
    simp only [String.append_assoc]

theorem writes_term (c : Conjunction) (w : SignedWord) : Writes c (.term w.term) [w] where
  absent_iff := by simp
  text_eq := by
    show String.ofList (Query.write (Query.ofTerm w.term)) = _
    rw [Query.write_ofTerm, String.ofList_toList, write_term, List.map_singleton,
      String.intercalate_singleton]

theorem Writes.attach (hl : Writes c l us) (hr : Writes c r vs) :
    Writes c (attach l r c) (us ++ vs) := by
  by_cases hra : r = .absent
  · rw [hra, attach_absent_right, hr.absent_iff.mp hra, List.append_nil]
    exact hl
  by_cases hla : l = .absent
  · rw [hla, attach_absent_left, hl.absent_iff.mp hla, List.nil_append]
    exact hr
  have hus : us ≠ [] := fun h => hla (hl.absent_iff.mpr h)
  have hvs : vs ≠ [] := fun h => hra (hr.absent_iff.mpr h)
  rw [attach_of_ne_absent hla hra]
  refine ⟨by simp [hus], ?_⟩
  rw [List.map_append, String.intercalate_append_of_ne_nil (by simpa) (by simpa), ← hl.text_eq,
    ← hr.text_eq]
  apply String.toList_injective
  simp [Query.ofTree, Query.Token.write]

theorem Writes.row (h : Writes c root us) (ws : List SignedWord) :
    Writes c (row c root ws) (us ++ ws) := by
  induction ws generalizing root us with
  | nil => simpa [FullText.row] using h
  | cons w ws ih =>
    rw [row_cons, ← List.singleton_append, ← List.append_assoc]
    exact ih (h.attach (writes_term c w))

/-- **Flat expressions.** Words side by side are converted to their operands, the first wanted one
in front of those before it, or to nothing if no word is wanted. Words with `or` between them are
converted to the operands of the wanted ones. -/
theorem flat_query_text (words : StopWords) (ws : List SignedWord)
    (h : ∀ w ∈ ws, Plain words w) :
    (∃ conv, Conversion.ofQuery words (some (" ".intercalate (ws.map text))) = .ok conv ∧
      conv.text = " AND ".intercalate ((wantedFirst ws).map operand)) ∧
    ∃ conv, Conversion.ofQuery words (some (" or ".intercalate (ws.map text))) = .ok conv ∧
      conv.text = " OR ".intercalate ((ws.filter (!·.negated)).map operand) := by
  refine ⟨⟨_, Conversion.ofQuery_eq _ _, ?_⟩, _, Conversion.ofQuery_eq _ _, ?_⟩
  · show String.ofList (Query.write (Query.ofTree
      ((buildText (" ".intercalate (ws.map text)) .and words).repaired true))) = _
    rw [buildText_row separates_blank h]
    rcases wantedFirst_cases ws with ⟨hneg, hnone⟩ | ⟨us, w, vs, rfl, hneg, hw, hfirst⟩
    · rw [repaired_row_negated hneg, hnone]
      exact (writes_absent .and).text_eq
    · rw [repaired_row_wanted hneg hw, hfirst]
      exact (((writes_term .and w).attach ((writes_absent .and).row us)).row vs).text_eq
  · show String.ofList (Query.write (Query.ofTree
      ((buildText (" or ".intercalate (ws.map text)) .and words).repaired true))) = _
    rw [buildText_row separates_or h, repaired_row_or]
    exact ((writes_absent .or).row _).text_eq

/-- In `-a -b c -d e` the word `c` comes first; with `or` between the words `c` and `e` are left. -/
theorem signed_words_text :
    (∀ w ∈ [⟨"a", true⟩, ⟨"b", true⟩, ⟨"c", false⟩, ⟨"d", true⟩, ⟨"e", false⟩],
      Plain (.ofList ["the"]) w) ∧
    (∃ conv, Conversion.ofQuery (.ofList ["the"]) (some "-a -b c -d e") = .ok conv ∧
      conv.text = "FORMSOF(INFLECTIONAL, c) AND NOT FORMSOF(INFLECTIONAL, a) AND " ++
        "NOT FORMSOF(INFLECTIONAL, b) AND NOT FORMSOF(INFLECTIONAL, d) AND " ++
        "FORMSOF(INFLECTIONAL, e)") ∧
    ∃ conv, Conversion.ofQuery (.ofList ["the"]) (some "-a or -b or c or -d or e") = .ok conv ∧
      conv.text = "FORMSOF(INFLECTIONAL, c) OR FORMSOF(INFLECTIONAL, e)" := by
  have h : ∀ w ∈ [⟨"a", true⟩, ⟨"b", true⟩, ⟨"c", false⟩, ⟨"d", true⟩, ⟨"e", false⟩],
      Plain (.ofList ["the"]) w := by
    simp only [List.forall_mem_cons, List.not_mem_nil, false_implies, implies_true, and_true]
    refine ⟨?_, ?_, ?_, ?_, ?_⟩ <;>
      exact ⟨by decide, List.forall_mem_singleton.mpr (by decide), by decide +kernel, by decide⟩
  obtain ⟨⟨conv, hconv, htext⟩, conv', hconv', htext'⟩ := flat_query_text _ _ h
  refine ⟨h, ⟨conv, hconv, htext.trans ?_⟩, conv', hconv', htext'.trans ?_⟩
  · decide +kernel
  · decide +kernel

end FullText
