import FullText.Proofs.Between
import FullText.Proofs.Built
import FullText.Proofs.Lexeme

/-!
# Reading in one pass

Cutting out a block and finding its tokens is the same as splitting the tokens of the whole text at
the matching bracket (`exists_inside`): a cut never goes through a lexeme, and quotes pair in the
same way in a block as around it. So the parser, which reads each block once more for each bracket
around it, builds the tree of the tokens (`parseFrom_between`).
-/

namespace FullText

namespace Search

open Cursor (between)

variable {c ch : Char} {cs rest : List Char} {t : Token} {ts : List Token} {b : Bracket}

/-! ## Brackets -/

theorem closer_ne_opener (b : Bracket) : b.closer ≠ b.opener := by cases b <;> decide

theorem opener_ne_quote (b : Bracket) : b.opener ≠ '"' := by cases b <;> decide

theorem closer_ne_quote (b : Bracket) : b.closer ≠ '"' := by cases b <;> decide

theorem isBlank_opener (b : Bracket) : Text.isBlank b.opener = false := by cases b <;> decide

theorem isBlank_closer (b : Bracket) : Text.isBlank b.closer = false := by cases b <;> decide

@[simp] theorem ofOpener?_opener (b : Bracket) : Bracket.ofOpener? b.opener = some b := by
  cases b <;> rfl

theorem opener_of_ofOpener? (h : Bracket.ofOpener? c = some b) : c = b.opener := by
  unfold Bracket.ofOpener? at h
  split at h
  · next hc => rw [hc, ← Option.some.inj h]; rfl
  · split at h
    · next hc => rw [hc, ← Option.some.inj h]; rfl
    · exact absurd h (by simp)

/-- A character of a word is neither a bracket nor a quote. -/
theorem ne_of_isWordChar (b : Bracket) (h : isWordChar c = true) :
    c ≠ b.opener ∧ c ≠ b.closer ∧ c ≠ '"' := by
  refine ⟨?_, ?_, ?_⟩ <;> rintro rfl
  · exact absurd h (by simp [isWordChar_opener])
  · exact absurd h (by simp [isWordChar_closer])
  · exact absurd h (by simp [isWordChar_quote])

theorem ne_of_isBlank (b : Bracket) (h : Text.isBlank c = true) :
    c ≠ b.opener ∧ c ≠ b.closer ∧ c ≠ '"' := by
  refine ⟨?_, ?_, ?_⟩ <;> rintro rfl
  · exact absurd h (by simp [isBlank_opener])
  · exact absurd h (by simp [isBlank_closer])
  · exact absurd h (by decide)

/-! ## Splitting tokens -/

theorem splitBlock_nil (b : Bracket) (inner : Nat) : splitBlock b inner [] = ([], []) := rfl

theorem splitBlock_opener (b : Bracket) (inner : Nat) (ts : List Token) :
    splitBlock b inner (.mark b.opener :: ts) =
      (.mark b.opener :: (splitBlock b (inner + 1) ts).1, (splitBlock b (inner + 1) ts).2) := by
  rw [splitBlock.eq_def]
  simp only [if_pos]

theorem splitBlock_closer_zero (b : Bracket) (ts : List Token) :
    splitBlock b 0 (.mark b.closer :: ts) = ([], ts) := by
  rw [splitBlock.eq_def]
  simp [closer_ne_opener]

theorem splitBlock_closer_succ (b : Bracket) (inner : Nat) (ts : List Token) :
    splitBlock b (inner + 1) (.mark b.closer :: ts) =
      (.mark b.closer :: (splitBlock b inner ts).1, (splitBlock b inner ts).2) := by
  rw [splitBlock.eq_def]
  simp [closer_ne_opener]

theorem splitBlock_other (ho : t ≠ .mark b.opener) (hc : t ≠ .mark b.closer) (inner : Nat)
    (ts : List Token) :
    splitBlock b inner (t :: ts) = (t :: (splitBlock b inner ts).1, (splitBlock b inner ts).2) := by
  rw [splitBlock.eq_def]
  simp [ho, hc]

/-- A token goes into the block, unless it is the bracket that closes it. -/
theorem splitBlock_cons (b : Bracket) (inner : Nat) (t : Token) :
    (∀ ts, splitBlock b inner (t :: ts) = ([], ts)) ∨ ∃ inner', ∀ ts, splitBlock b inner (t :: ts) =
      (t :: (splitBlock b inner' ts).1, (splitBlock b inner' ts).2) := by
  by_cases ho : t = .mark b.opener
  · subst ho
    exact .inr ⟨_, splitBlock_opener b inner⟩
  by_cases hc : t = .mark b.closer
  · subst hc
    cases inner with
    | zero => exact .inl (splitBlock_closer_zero b)
    | succ inner => exact .inr ⟨_, splitBlock_closer_succ b inner⟩
  · exact .inr ⟨_, splitBlock_other ho hc inner⟩

/-! ## Blocks -/

/-- A lexeme that is no bracket of the kind is passed as a whole. -/
theorem Lexeme.toBlockEnd (h : Lexeme c cs t rest) (ho : t ≠ .mark b.opener)
    (hc : t ≠ .mark b.closer) (before : List Char) (inner : Nat) :
    (between before (c :: (cs ++ rest))).toBlockEnd [b.opener] [b.closer] inner =
      (between (before ++ c :: cs) rest).toBlockEnd [b.opener] [b.closer] inner := by
  cases h with
  | word hw hcs hr =>
    have hrun : ∀ ch ∈ c :: cs, ch ≠ b.opener ∧ ch ≠ b.closer ∧ ch ≠ '"' :=
      List.forall_mem_cons.mpr
        ⟨ne_of_isWordChar b hw, fun ch hch => ne_of_isWordChar b (hcs ch hch)⟩
    exact Cursor.toBlockEnd_run hrun before rest inner
  | @starred _ cs _ hw hcs =>
    have hrun : ∀ ch ∈ c :: (cs ++ ['*']), ch ≠ b.opener ∧ ch ≠ b.closer ∧ ch ≠ '"' := by
      refine List.forall_mem_cons.mpr ⟨ne_of_isWordChar b hw, List.forall_mem_append.mpr
        ⟨fun ch hch => ne_of_isWordChar b (hcs ch hch), List.forall_mem_singleton.mpr ?_⟩⟩
      cases b <;> decide
    exact Cursor.toBlockEnd_run hrun before rest inner
  | phrase hcs =>
    rw [Cursor.toBlockEnd_quote (opener_ne_quote b) (closer_ne_quote b), List.append_assoc,
      takeWhile_run (bne_of_notMem hcs) (by simp),
      dropWhile_run (bne_of_notMem hcs) (by simp)]
    simp
  | unclosed hcs =>
    rw [Cursor.toBlockEnd_quote (opener_ne_quote b) (closer_ne_quote b),
      takeWhile_run (bne_of_notMem hcs) (by simp),
      dropWhile_run (bne_of_notMem hcs) (by simp), Cursor.advance_between_nil]
  | mark hw hq =>
    refine Cursor.toBlockEnd_other (fun h => ho ?_) (fun h => hc ?_) hq before rest inner
    · rw [h]
    · rw [h]

theorem Lexeme.of_mark (h : Lexeme c cs t rest) (ht : t = .mark ch) :
    c = ch ∧ cs = [] ∧ isWordChar c = false ∧ c ≠ '"' := by
  cases h with
  | mark hc hq => exact ⟨Token.mark.inj ht, rfl, hc, hq⟩
  | _ => exact absurd ht (by simp)

/-- **Blocks.** The text of a block has the tokens up to the matching bracket, and the text behind
the block has the tokens behind that bracket. -/
theorem exists_inside (b : Bracket) (before cs : List Char) (inner : Nat) :
    ∃ inside rest, cs = inside ++ rest ∧
      (between before cs).toBlockEnd [b.opener] [b.closer] inner =
        .ok (between (before ++ inside) rest) ∧
      tokens inside = (splitBlock b inner (tokens cs)).1 ∧
      tokens (rest.drop 1) = (splitBlock b inner (tokens cs)).2 := by
  induction cs using lexeme_induction generalizing before inner with
  | nil =>
    refine ⟨[], [], rfl, ?_, ?_, ?_⟩
    · rw [Cursor.toBlockEnd_nil, List.append_nil]
    · rw [tokens_nil, splitBlock_nil]
    · rw [List.drop_nil, tokens_nil, splitBlock_nil]
  | blank c cs hb ih =>
    obtain ⟨ho, hc, hq⟩ := ne_of_isBlank b hb
    obtain ⟨inside, rest, rfl, hend, hin, hout⟩ := ih (before ++ [c]) inner
    refine ⟨c :: inside, rest, rfl, ?_, ?_, ?_⟩
    · rw [Cursor.toBlockEnd_other ho hc hq, hend, List.append_assoc, List.singleton_append]
    · rw [tokens_of_isBlank hb, tokens_of_isBlank hb, hin]
    · rw [tokens_of_isBlank hb, hout]
  | lexeme c w t behind hb hlex ih =>
    -- a token that closes nothing goes into the block, with what follows it
    have push {inner' : Nat}
        (hstep : (between before (c :: (w ++ behind))).toBlockEnd [b.opener] [b.closer] inner =
          (between (before ++ c :: w) behind).toBlockEnd [b.opener] [b.closer] inner')
        (hsplit : splitBlock b inner (t :: tokens behind) =
          (t :: (splitBlock b inner' (tokens behind)).1,
            (splitBlock b inner' (tokens behind)).2)) :
        ∃ inside rest, c :: (w ++ behind) = inside ++ rest ∧
          (between before (c :: (w ++ behind))).toBlockEnd [b.opener] [b.closer] inner =
            .ok (between (before ++ inside) rest) ∧
          tokens inside = (splitBlock b inner (tokens (c :: (w ++ behind)))).1 ∧
          tokens (rest.drop 1) = (splitBlock b inner (tokens (c :: (w ++ behind)))).2 := by
      obtain ⟨inside, rest, rfl, hend, hin, hout⟩ := ih (before ++ c :: w) inner'
      refine ⟨c :: (w ++ inside), rest, by simp, ?_, ?_, ?_⟩
      · rw [hstep, hend, List.append_assoc, List.cons_append]
      · rw [hlex.of_prefix.tokens hb, hlex.tokens hb, hsplit, hin]
      · rw [hlex.tokens hb, hsplit, hout]
    by_cases ho : t = .mark b.opener
    · obtain ⟨rfl, rfl, -, -⟩ := hlex.of_mark ho
      subst ho
      exact push (Cursor.toBlockEnd_opener _ before behind inner) (splitBlock_opener b inner _)
    by_cases hc : t = .mark b.closer
    · obtain ⟨rfl, rfl, -, -⟩ := hlex.of_mark hc
      subst hc
      cases inner with
      | zero =>
        refine ⟨[], b.closer :: behind, rfl, ?_, ?_, ?_⟩
        · rw [List.nil_append, Cursor.toBlockEnd_closer_zero (closer_ne_opener b), List.append_nil]
        · rw [hlex.tokens hb, splitBlock_closer_zero, tokens_nil]
        · rw [hlex.tokens hb, splitBlock_closer_zero, List.drop_one, List.tail_cons]
      | succ inner =>
        exact push (Cursor.toBlockEnd_closer_succ (closer_ne_opener b) before behind inner)
          (splitBlock_closer_succ b inner _)
    · exact push (hlex.toBlockEnd ho hc before inner) (splitBlock_other ho hc inner _)

/-! ## Items -/

theorem isPunctuation_of_isWordChar (h : isWordChar c = true) : isPunctuation c = false := by
  simpa using (Bool.and_eq_true_iff.mp h).1

theorem isPunctuation_of_not_isWordChar (h : isWordChar c = false) (hb : Text.isBlank c = false) :
    isPunctuation c = true := by
  simpa [isWordChar, hb] using h

theorem Lexeme.isWordChar_of_word {w : List Char} {s : Bool} (h : Lexeme c cs (.word w s) rest) :
    isWordChar c = true := by
  cases h with
  | word hc => exact hc
  | starred hc => exact hc

theorem Lexeme.itemHere_word {w : List Char} {s : Bool} (h : Lexeme c cs (.word w s) rest)
    (before : List Char) :
    (between before (c :: (cs ++ rest))).itemHere =
      .ok (.word w s, between (before ++ c :: cs) rest) := by
  unfold Cursor.itemHere
  simp only [Cursor.peek_between_cons, Cursor.atEnd_between_cons,
    isPunctuation_of_isWordChar h.isWordChar_of_word, Bool.not_false, Bool.and_self, if_true]
  unfold Cursor.word
  rw [Cursor.advance_between_cons, Cursor.skipWhile_between]
  cases h with
  | word hc hcs hr =>
    rw [takeWhile_run hcs fun ch hch => (hr ch hch).1,
      dropWhile_run hcs fun ch hch => (hr ch hch).1]
    have hstar : (rest.headD '\x00' == '*') = false := by
      cases rest with
      | nil => decide
      | cons ch rest => simpa using (hr ch rfl).2
    simp only [Cursor.peek_between, hstar, Bool.false_eq_true, if_false, Cursor.position_between]
    simpa using Cursor.slice_between before (c :: cs) rest
  | @starred _ cs _ hc hcs =>
    have hr : ∀ ch ∈ ('*' :: rest).head?, isWordChar ch = false := by
      rintro ch ⟨⟩
      exact isWordChar_star
    have htake : (cs ++ ['*'] ++ rest).takeWhile isWordChar = cs := by
      rw [List.append_assoc]
      exact takeWhile_run hcs hr
    have hdrop : (cs ++ ['*'] ++ rest).dropWhile isWordChar = '*' :: rest := by
      rw [List.append_assoc]
      exact dropWhile_run hcs hr
    rw [htake, hdrop]
    simpa using Cursor.slice_between before (c :: (cs ++ ['*'])) rest

theorem Lexeme.itemHere_phrase {p : List Char} (h : Lexeme c cs (.phrase p) rest)
    (before : List Char) :
    (between before (c :: (cs ++ rest))).itemHere =
      .ok (.phrase (Text.stripChars p), between (before ++ c :: cs) rest) := by
  have hitem (ds : List Char) : (between before ('"' :: ds)).itemHere =
      (between before ('"' :: ds)).phrase := by
    unfold Cursor.itemHere
    simp [show isPunctuation '"' = true by decide]
  cases h with
  | phrase hcs =>
    rw [hitem]
    unfold Cursor.phrase
    rw [Cursor.quoted_between, List.append_assoc,
      takeWhile_run (bne_of_notMem hcs) (by simp),
      dropWhile_run (bne_of_notMem hcs) (by simp)]
    simp
  | unclosed hcs =>
    rw [hitem]
    unfold Cursor.phrase
    rw [Cursor.quoted_between, takeWhile_run (bne_of_notMem hcs) (by simp),
      dropWhile_run (bne_of_notMem hcs) (by simp)]
    simp

/-- A character that starts no word and no phrase is a block if it opens a bracket. -/
theorem itemHere_of_not_isWordChar (hc : isWordChar c = false) (hb : Text.isBlank c = false)
    (hq : c ≠ '"') (before rest : List Char) :
    (between before (c :: rest)).itemHere =
      match Bracket.ofOpener? c with
      | some b => (between before (c :: rest)).bracketed b
      | none => .ok (.mark c, between (before ++ [c]) rest) := by
  unfold Cursor.itemHere
  cases ho : Bracket.ofOpener? c <;>
    simp only [Cursor.peek_between_cons, isPunctuation_of_not_isWordChar hc hb, Bool.not_true,
      Bool.and_false, Bool.false_eq_true, if_false, hq, Cursor.advance_between_cons, ho]

theorem itemHere_opener (b : Bracket) (before cs : List Char) :
    ∃ inside rest before', cs = inside ++ rest ∧
      (between before (b.opener :: cs)).itemHere =
        .ok (.block b inside, between before' (rest.drop 1)) ∧
      tokens inside = (splitBlock b 0 (tokens cs)).1 ∧
      tokens (rest.drop 1) = (splitBlock b 0 (tokens cs)).2 := by
  obtain ⟨inside, rest, hcs, hend, hin, hout⟩ := exists_inside b (before ++ [b.opener]) cs 0
  have hafter : ∃ before', (between (before ++ [b.opener] ++ inside) rest).advance =
      between before' (rest.drop 1) := by
    cases rest with
    | nil => exact ⟨_, Cursor.advance_between_nil _⟩
    | cons ch rest => exact ⟨_, Cursor.advance_between_cons _ _ _⟩
  obtain ⟨before', hafter⟩ := hafter
  refine ⟨inside, rest, before', hcs, ?_, hin, hout⟩
  rw [itemHere_of_not_isWordChar (isWordChar_opener b) (isBlank_opener b) (opener_ne_quote b),
    ofOpener?_opener]
  simp only [Cursor.bracketed]
  rw [Cursor.block_between hcs hend]
  simp only [hafter]

/-- White space is skipped in front of an item. -/
theorem nextItem_between (before cs : List Char) :
    (between before cs).nextItem =
      (between (before ++ cs.takeWhile Text.isBlank) (cs.dropWhile Text.isBlank)).itemHere := by
  unfold Cursor.nextItem
  rw [Cursor.skipWhile_between]

theorem itemHere_nil (before : List Char) :
    (between before []).itemHere = .ok (.mark '\x00', between before []) := by
  unfold Cursor.itemHere
  simp [show ('\x00' : Char) ≠ '"' by decide, show Bracket.ofOpener? '\x00' = none by decide]

/-! ## Joining -/

section Joining

variable {root node : Tree} {words : StopWords} {default : Conjunction} {m : Modifiers}

theorem attach_absent_right (root : Tree) (c : Conjunction) : attach root .absent c = root := rfl

theorem attach_absent_left (node : Tree) (c : Conjunction) : attach .absent node c = node := by
  cases node with
  | leaf l => cases l <;> rfl
  | join => rfl

theorem attach_of_ne_absent (hr : root ≠ .absent) (hn : node ≠ .absent) (c : Conjunction) :
    attach root node c = .join root node c false (root.isExcluded && node.isExcluded) := by
  unfold attach
  split
  · exact absurd rfl hn
  · exact absurd rfl hr
  · rfl

theorem conjunction_literalIf (m : Modifiers) (b : Bool) :
    (m.literalIf b).conjunction = m.conjunction := by
  cases b <;> rfl

/-- Made of terms, or absent. -/
def Parsed (t : Tree) : Prop := t.Whole ∨ t = .absent

theorem Parsed.attach (hr : Parsed root) (hn : Parsed node) (c : Conjunction) :
    Parsed (attach root node c) := by
  rcases hn with hn | rfl
  · rcases hr with hr | rfl
    · rw [attach_of_ne_absent hr.ne_absent hn.ne_absent]
      exact .inl (Tree.whole_join.mpr ⟨hr, hn, rfl⟩)
    · rw [attach_absent_left]
      exact .inl hn
  · exact hr

theorem Parsed.withGroup (h : Parsed node) (g : Bool) : Parsed (node.withGroup g) := by
  rcases h with h | rfl
  · exact .inl (h.withGroup g)
  · exact .inr rfl

theorem parsed_termTree (words : StopWords) (cs : List Char) (m : Modifiers) :
    Parsed (termTree words cs m) := by
  unfold termTree
  split
  · exact .inr rfl
  · exact .inl trivial

theorem Parsed.addNode_eq (hr : Parsed root) (hn : Parsed node) (c : Conjunction) (g : Bool) :
    addNode root node c g = .ok (Search.attach root (node.withGroup g) c) := by
  rcases hn with hn | rfl
  · have hw := hn.withGroup g
    unfold addNode
    split
    · exact absurd rfl hn.ne_absent
    · rw [hn.regroup]
      rcases hr with hr | rfl
      · rw [attach_of_ne_absent hr.ne_absent hw.ne_absent]
        simp only [bind, Except.bind]
        split
        · exact absurd rfl hr.ne_absent
        · exact hr.readable.joined hw.readable c false
      · rw [attach_absent_left]
        rfl
  · rfl

theorem Parsed.addTerm_eq (hr : Parsed root) (words : StopWords) (cs : List Char) (m : Modifiers) :
    addTerm words root cs m = .ok (Search.attach root (termTree words cs m) m.conjunction) := by
  unfold addTerm termTree
  by_cases h : cs = [] ∨ words.contains (String.ofList cs) = true
  · rw [if_pos h, if_pos (by simpa using h)]
    rfl
  · rw [if_neg h, if_neg (by simpa using h)]
    have hterm : Parsed (.term ⟨String.ofList cs, m.form, m.exclude, false⟩) := .inl trivial
    exact hr.addNode_eq hterm m.conjunction false

/-- Tokens build a tree of terms. -/
theorem Parsed.build (hr : Parsed root) (words : StopWords) (default : Conjunction) (m : Modifiers)
    (ts : List Token) : Parsed (build words default m root ts) := by
  fun_induction Search.build words default m root ts with
  | case1 => exact hr
  | case2 _ _ _ _ _ _ _ _ ih => exact ih hr
  | case3 _ _ _ cs _ _ _ ih => exact ih (hr.attach (parsed_termTree words cs _) _)
  | case4 _ _ _ cs _ ih => exact ih (hr.attach (parsed_termTree words _ _) _)
  | case5 _ _ _ _ _ _ ih => exact ih hr
  | case6 _ _ _ _ _ _ _ _ _ _ ihnode _ ih =>
    exact ih (hr.attach ((ihnode (.inr rfl)).withGroup _) _)

theorem built_buildText (text : String) (default : Conjunction) (words : StopWords) :
    (buildText text default words).Built ∨ buildText text default words = .absent :=
  (Parsed.build (.inr rfl) words default _ _).imp_left Tree.Whole.built

end Joining

/-! ## Parsing -/

section Parsing

variable {words : StopWords} {default : Conjunction} {m : Modifiers} {root : Tree}
  {before : List Char}

theorem parseFrom_nil (words : StopWords) (default : Conjunction) (before : List Char)
    (m : Modifiers) (root : Tree) :
    parseFrom words default (between before []) m root = .ok root := by
  rw [parseFrom.eq_def, Cursor.atEnd_between_nil, if_pos rfl]

theorem parseFrom_item {i : Item} {d : Cursor} (hcs : cs ≠ []) :
    (between before cs).nextItem = .ok (i, d) →
    parseFrom words default (between before cs) m root =
      match i with
      | .word ds starred =>
        match Keyword.ofWord? ds with
        | some k => parseFrom words default d (m.apply k) root
        | none => addTerm words root ds (m.literalIf starred) >>=
            parseFrom words default d { conjunction := default }
      | .phrase ds => addTerm words root ds (m.literalIf true) >>=
          parseFrom words default d { conjunction := default }
      | .block b ds =>
        parseFrom words (b.default default) (.ofChars ds) { conjunction := b.default default }
            .absent >>= fun node =>
          addNode root node m.conjunction b.groups >>=
            parseFrom words default d { conjunction := default }
      | .mark ch => parseFrom words default d (m.mark ch) root := by
  intro hi
  have hend : (between before cs).atEnd = false := by
    cases cs with
    | nil => exact absurd rfl hcs
    | cons c cs => exact Cursor.atEnd_between_cons before cs c
  rw [parseFrom.eq_def, hend, if_neg (by simp)]
  split
  · next h =>
    rw [hi] at h
    exact absurd h (by simp)
  all_goals
    next h =>
    rw [hi] at h
    obtain ⟨rfl, rfl⟩ := Prod.mk.inj (Except.ok.inj h)
    rfl

/-- **Parsing.** From any place in a text, the parser goes on as the tokens ahead of it build. -/
theorem parseFrom_between (hr : Parsed root) (words : StopWords) (default : Conjunction)
    (m : Modifiers) (before cs : List Char) :
    parseFrom words default (between before cs) m root =
      .ok (build words default m root (tokens cs)) := by
  induction hn : cs.length using Nat.strongRecOn generalizing default m root before cs with
  | ind n ih =>
    by_cases hcs : cs = []
    · rw [hcs, parseFrom_nil, tokens_nil, build]
    · have hitem := nextItem_between before cs
      have hlen : (cs.dropWhile Text.isBlank).length ≤ cs.length :=
        (List.dropWhile_suffix Text.isBlank).length_le
      rw [← tokens_dropWhile_isBlank]
      generalize before ++ cs.takeWhile Text.isBlank = front at hitem
      cases hd : cs.dropWhile Text.isBlank with
      | nil =>
        -- nothing but blanks is left, which the parser reads as a mark that says nothing
        rw [hd, itemHere_nil] at hitem
        rw [parseFrom_item hcs hitem]
        show parseFrom words default (between front []) m root = _
        rw [parseFrom_nil, tokens_nil, build]
      | cons c ds =>
        have hb : Text.isBlank c = false :=
          Text.isBlank_head_dropWhile (congrArg List.head? hd)
        rw [hd] at hitem hlen
        rw [List.length_cons] at hlen
        obtain ⟨w, hds, hlex⟩ := exists_lexeme c ds
        generalize (Token.take c ds).1 = t at hlex
        generalize (Token.take c ds).2 = rest at hds hlex
        subst hds
        rw [List.length_append] at hlen
        rw [hlex.tokens hb]
        cases t with
        | word u starred =>
          rw [parseFrom_item hcs (hitem.trans (hlex.itemHere_word front)), build]
          simp only
          cases hk : Keyword.ofWord? u with
          | some k => exact ih rest.length (by omega) hr default (m.apply k) _ rest rfl
          | none =>
            simp only
            rw [hr.addTerm_eq, conjunction_literalIf]
            exact ih rest.length (by omega) (hr.attach (parsed_termTree _ _ _) _) default _ _ rest
              rfl
        | phrase p =>
          rw [parseFrom_item hcs (hitem.trans (hlex.itemHere_phrase front)), build]
          simp only
          rw [hr.addTerm_eq]
          exact ih rest.length (by omega) (hr.attach (parsed_termTree _ _ _) _) default _ _ rest rfl
        | mark ch =>
          obtain ⟨rfl, rfl, hc, hq⟩ := hlex.of_mark rfl
          rw [List.nil_append, itemHere_of_not_isWordChar hc hb hq] at hitem
          simp only [List.length_nil, Nat.zero_add] at hlen
          cases ho : Bracket.ofOpener? c with
          | none =>
            rw [ho] at hitem
            rw [parseFrom_item hcs hitem, build, ho]
            exact ih rest.length (by omega) hr default (m.mark c) _ rest rfl
          | some b =>
            obtain rfl := opener_of_ofOpener? ho
            obtain ⟨inside, behind, front', hrest, hblock, hin, hout⟩ :=
              itemHere_opener b front rest
            have hparts := congrArg List.length hrest
            rw [List.length_append] at hparts
            rw [itemHere_of_not_isWordChar hc hb hq] at hblock
            rw [parseFrom_item hcs (hitem.trans hblock), build, ho]
            simp only
            rw [Cursor.ofChars_eq_between,
              ih inside.length (by omega) (.inr rfl) _ _ [] inside rfl, hin, ← hout]
            have hnode : Parsed (build words (b.default default)
                { conjunction := b.default default } .absent (splitBlock b 0 (tokens rest)).1) :=
              Parsed.build (.inr rfl) _ _ _ _
            show (addNode root _ _ _ >>= _) = _
            rw [hr.addNode_eq hnode]
            exact ih (behind.drop 1).length (by rw [List.length_drop]; omega)
              (hr.attach (hnode.withGroup _) _) default _ _ (behind.drop 1) rfl

/-- **One pass.** The parser builds the tree of the tokens of the text. -/
theorem parse_eq_buildText (text : String) (default : Conjunction) (words : StopWords) :
    parse text default words = .ok (buildText text default words) :=
  parseFrom_between (.inr rfl) words default { conjunction := default } [] text.toList

end Parsing

end Search

end FullText
