import FullText.Proofs.Reading

/-!
# Texts that end inside a phrase or a block

A text is closed where its quotes pair up. Then the tokens of what is written behind it come behind
its own (`tokens_append`), as they do behind a quote that closes its last phrase
(`tokens_append_quote`). A mark that opens no bracket builds nothing at the end of the tokens, in
however many blocks it stands (`build_append_mark`). So what is left open is read as if it had been
closed (`parse_closed`).
-/

namespace FullText

namespace Search

variable {c ch : Char} {cs ds rest : List Char} {t : Token} {words : StopWords}

/-! ## Quotes -/

/-- The number of double quotes. -/
def quotes (cs : List Char) : Nat := cs.count '"'

theorem quotes_append (cs ds : List Char) : quotes (cs ++ ds) = quotes cs + quotes ds :=
  List.count_append

theorem quotes_cons_append (c : Char) (cs ds : List Char) :
    quotes (c :: (cs ++ ds)) = quotes (c :: cs) + quotes ds :=
  quotes_append (c :: cs) ds

theorem quotes_eq_zero (h : '"' ∉ cs) : quotes cs = 0 := List.count_eq_zero.mpr h

theorem quotes_of_isBlank (h : Text.isBlank c = true) (cs : List Char) :
    quotes (c :: cs) = quotes cs :=
  List.count_cons_of_ne (ne_of_isBlank .round h).2.2

theorem quotes_word (hc : isWordChar c = true) (hcs : ∀ ch ∈ cs, isWordChar ch = true) :
    quotes (c :: cs) = 0 := by
  refine quotes_eq_zero fun hq => ?_
  have hw : ∀ ch ∈ c :: cs, isWordChar ch = true := List.forall_mem_cons.mpr ⟨hc, hcs⟩
  exact absurd (hw _ hq) (by simp [isWordChar_quote])

/-- A word in front of the text ends there: the text does not start with a word character or a
star. -/
def Parted (ds : List Char) : Prop := ∀ ch ∈ ds.head?, isWordChar ch = false ∧ ch ≠ '*'

/-- The quotes of a lexeme are a pair, and it stays a lexeme in front of more text, unless it is a
phrase that is not closed. -/
theorem Lexeme.paired_or_unclosed (h : Lexeme c cs t rest) :
    (quotes (c :: cs) % 2 = 0 ∧ ∀ ds, Parted ds → Lexeme c cs t (rest ++ ds)) ∨
      c = '"' ∧ rest = [] ∧ t = .phrase cs ∧ '"' ∉ cs := by
  cases h with
  | word hc hcs hr =>
    refine .inl ⟨by rw [quotes_word hc hcs], fun ds hd => .word hc hcs fun ch hch => ?_⟩
    cases rest with
    | nil => exact hd ch hch
    | cons r rest => exact hr ch hch
  | @starred _ cs _ hc hcs =>
    refine .inl ⟨?_, fun ds _ => .starred hc hcs⟩
    rw [quotes_cons_append, quotes_word hc hcs]
    rfl
  | @phrase cs _ hcs =>
    refine .inl ⟨?_, fun ds _ => .phrase hcs⟩
    rw [quotes_cons_append, ← List.singleton_append, quotes_append, quotes_eq_zero hcs]
    rfl
  | unclosed hcs => exact .inr ⟨rfl, rfl, rfl, hcs⟩
  | mark hc hq =>
    exact .inl ⟨by rw [quotes_eq_zero (by simpa using hq.symm)], fun ds _ => .mark hc hq⟩

theorem tokens_append (h : quotes cs % 2 = 0) (hd : Parted ds) :
    tokens (cs ++ ds) = tokens cs ++ tokens ds := by
  induction cs using lexeme_induction with
  | nil => rw [tokens_nil, List.nil_append, List.nil_append]
  | blank c cs hb ih =>
    rw [quotes_of_isBlank hb] at h
    rw [List.cons_append, tokens_of_isBlank hb, tokens_of_isBlank hb, ih h]
  | lexeme c w t rest hb hlex ih =>
    rcases hlex.paired_or_unclosed with ⟨hpair, hext⟩ | ⟨rfl, rfl, rfl, hw⟩
    · rw [quotes_cons_append, Nat.add_mod, hpair, Nat.zero_add, Nat.mod_mod] at h
      rw [List.cons_append, List.append_assoc, (hext ds hd).tokens hb, hlex.tokens hb, ih h,
        List.cons_append]
    · rw [List.append_nil, ← List.singleton_append, quotes_append, quotes_eq_zero hw] at h
      exact absurd h (by decide)

theorem parted_quote (cs : List Char) : Parted ('"' :: cs) := by
  rintro ch ⟨⟩
  decide

/-- A quote that closes a phrase changes no token. -/
theorem tokens_append_quote (h : quotes cs % 2 = 1) (ds : List Char) :
    tokens (cs ++ '"' :: ds) = tokens cs ++ tokens ds := by
  induction cs using lexeme_induction with
  | nil => exact absurd h (by decide)
  | blank c cs hb ih =>
    rw [quotes_of_isBlank hb] at h
    rw [List.cons_append, tokens_of_isBlank hb, tokens_of_isBlank hb, ih h]
  | lexeme c w t rest hb hlex ih =>
    rcases hlex.paired_or_unclosed with ⟨hpair, hext⟩ | ⟨rfl, rfl, rfl, hw⟩
    · rw [quotes_cons_append, Nat.add_mod, hpair, Nat.zero_add, Nat.mod_mod] at h
      rw [List.cons_append, List.append_assoc, (hext _ (parted_quote ds)).tokens hb,
        hlex.tokens hb, ih h, List.cons_append]
    · have hclosed : Lexeme '"' (w ++ ['"']) (.phrase w) ds := .phrase hw
      have htext : '"' :: (w ++ []) ++ '"' :: ds = '"' :: (w ++ ['"'] ++ ds) := by simp
      rw [htext, hclosed.tokens hb, hlex.tokens hb, tokens_nil, List.singleton_append]

theorem parted_closer (b : Bracket) : Parted [b.closer] := by
  rintro ch ⟨⟩
  exact ⟨isWordChar_closer b, by cases b <;> decide⟩

/-! ## Marks at the end -/

theorem ofOpener?_closer (b : Bracket) : Bracket.ofOpener? b.closer = none := by cases b <;> rfl

/-- A token that comes behind the others goes to the end of the block, to the end of what is behind
the block, or nowhere, if it closes the block. -/
theorem splitBlock_append (b : Bracket) (inner : Nat) (ts : List Token) (t : Token) :
    ((splitBlock b inner (ts ++ [t])).1 = (splitBlock b inner ts).1 ∨
        (splitBlock b inner (ts ++ [t])).1 = (splitBlock b inner ts).1 ++ [t]) ∧
      ((splitBlock b inner (ts ++ [t])).2 = (splitBlock b inner ts).2 ∨
        (splitBlock b inner (ts ++ [t])).2 = (splitBlock b inner ts).2 ++ [t]) := by
  induction ts generalizing inner with
  | nil =>
    rcases splitBlock_cons b inner t with h | ⟨inner', h⟩
    · rw [List.nil_append, h, splitBlock_nil]
      exact ⟨.inl rfl, .inl rfl⟩
    · rw [List.nil_append, h, splitBlock_nil, splitBlock_nil]
      exact ⟨.inr rfl, .inl rfl⟩
  | cons u ts ih =>
    rcases splitBlock_cons b inner u with h | ⟨inner', h⟩
    · rw [List.cons_append, h, h]
      exact ⟨.inl rfl, .inr rfl⟩
    · rw [List.cons_append, h, h]
      obtain ⟨hin, hout⟩ := ih inner'
      exact ⟨hin.imp (congrArg (u :: ·)) (congrArg (u :: ·)), hout⟩

/-- A mark at the end of the tokens says nothing, unless it opens a block. -/
theorem build_append_mark {default : Conjunction} {m : Modifiers} {root : Tree} {ts : List Token}
    (h : Bracket.ofOpener? ch = none) :
    build words default m root (ts ++ [.mark ch]) = build words default m root ts := by
  fun_induction build words default m root ts with
  | case1 m root => rw [List.nil_append, build, h]; simp only [build]
  | case2 default m root cs starred ts k hk ih => rw [List.cons_append, build, hk]; exact ih
  | case3 default m root cs starred ts hk ih => rw [List.cons_append, build, hk]; exact ih
  | case4 default m root cs ts ih => rw [List.cons_append, build, ih]
  | case5 default m root c ts hb ih => rw [List.cons_append, build, hb]; exact ih
  | case6 default m root c ts b hb inside inner node ihnode _ ih =>
    obtain ⟨hin, hout⟩ := splitBlock_append b 0 ts (.mark ch)
    rw [List.cons_append, build, hb]
    have hnode : build words inner { conjunction := inner } .absent
        (splitBlock b 0 (ts ++ [.mark ch])).1 = node := by
      rcases hin with hin | hin
      · rw [hin]
      · rw [hin, ihnode]
    simp only
    rw [hnode]
    rcases hout with hout | hout
    · rw [hout]
    · rw [hout, ih]

/-- **Closing.** A text that ends inside a phrase is read as with the quote that closes it, and any
other text as with a closing bracket of either kind, whatever blocks are open at its end. -/
theorem parse_closed (text : String) (default : Conjunction) (words : StopWords) :
    ∃ t, parse text default words = .ok t ∧
      (quotes text.toList % 2 = 1 → parse (text.push '"') default words = .ok t) ∧
      (quotes text.toList % 2 = 0 →
        ∀ b : Bracket, parse (text.push b.closer) default words = .ok t) := by
  have hparse (text : String) : parse text default words =
      .ok (build words default { conjunction := default } .absent (tokens text.toList)) :=
    parseFrom_between (.inr rfl) words default { conjunction := default } [] text.toList
  refine ⟨_, hparse text, fun hodd => ?_, fun heven b => ?_⟩
  · rw [hparse, String.toList_push, tokens_append_quote hodd, tokens_nil, List.append_nil]
  · have hcloser : Lexeme b.closer [] (.mark b.closer) [] :=
      .mark (isWordChar_closer b) (closer_ne_quote b)
    have htokens : tokens [b.closer] = [.mark b.closer] := by
      have := hcloser.tokens (isBlank_closer b)
      rwa [tokens_nil] at this
    rw [hparse, String.toList_push, tokens_append heven (parted_closer b), htokens,
      build_append_mark (ofOpener?_closer b)]

/-- A phrase in two open blocks, and the blocks in front of it. -/
theorem phrase_in_open_blocks_closed :
    ∃ t u, quotes "a or (-b <c \"d e".toList % 2 = 1 ∧ quotes "a or (-b <c".toList % 2 = 0 ∧
      parse "a or (-b <c \"d e" .and .empty = .ok t ∧
      parse "a or (-b <c \"d e\"" .and .empty = .ok t ∧
      parse "a or (-b <c" .and .empty = .ok u ∧ parse "a or (-b <c)" .and .empty = .ok u ∧
      parse "a or (-b <c>" .and .empty = .ok u := by
  have hodd : quotes "a or (-b <c \"d e".toList % 2 = 1 := by decide
  have heven : quotes "a or (-b <c".toList % 2 = 0 := by decide
  obtain ⟨t, ht, hquote, -⟩ := parse_closed "a or (-b <c \"d e" .and .empty
  obtain ⟨u, hu, -, hbracket⟩ := parse_closed "a or (-b <c" .and .empty
  exact ⟨t, u, hodd, heven, ht, hquote hodd, hu, hbracket heven .round, hbracket heven .angle⟩

end Search

end FullText
