import FullText.Proofs.Between
import FullText.Search.Item

/-!
# Cursors inside their text

Every operation that reads only moves a cursor ahead, and no further than the end (`Ahead`). So a
cursor that starts inside its text stays there while items are read: wherever a character is read,
there is one or the text is at its end (`NextReads.inside`).
-/

namespace FullText

namespace Cursor

open Search

variable {c d e : Cursor} {p : Char → Bool} {cs opener closer : List Char} {inner : Nat}

/-- The position is in the text or right behind it. -/
structure Inside (c : Cursor) : Prop where
  zero_le : 0 ≤ c.position
  le_size : c.position ≤ c.text.size

/-- Further on in the same text, at most at its end. -/
structure Ahead (c d : Cursor) : Prop where
  text_eq : d.text = c.text
  position_le : c.position ≤ d.position
  le_size : d.position ≤ d.text.size

theorem inside_ofChars (cs : List Char) : (ofChars cs).Inside :=
  ⟨Int.le_refl _, Int.natCast_nonneg _⟩

theorem ahead_refl (hc : c.position ≤ c.text.size) : Ahead c c := ⟨rfl, Int.le_refl _, hc⟩

theorem Ahead.inside (h : Ahead c d) (hc : c.Inside) : d.Inside :=
  ⟨Int.le_trans hc.zero_le h.position_le, h.le_size⟩

theorem Ahead.trans (h : Ahead c d) (h' : Ahead d e) : Ahead c e :=
  ⟨h'.text_eq.trans h.text_eq, Int.le_trans h.position_le h'.position_le, h'.le_size⟩

theorem ahead_advance (hc : c.position ≤ c.text.size) {n : Int} (hn : 0 ≤ n) :
    Ahead c (c.advance n) := by
  refine ⟨rfl, ?_, ?_⟩ <;> simp only [Cursor.advance] <;> omega

theorem ahead_next (hc : c.position ≤ c.text.size) : Ahead c c.advance :=
  ahead_advance hc (by decide)

theorem Inside.advance (hc : c.Inside) : c.advance.Inside := (ahead_next hc.le_size).inside hc

/-! ## Where characters are read -/

/-- The cursors under which a character is read while `c` moves over what satisfies `p`. -/
inductive SkipReads (p : Char → Bool) : Cursor → Cursor → Prop
  | here (c : Cursor) : SkipReads p c c
  | next {c d : Cursor} {ch : Char} (hc : c.atEnd = false) (hr : c.peek = .ok ch)
    (hp : p ch = true) (hd : SkipReads p c.advance d) : SkipReads p c d

/-- Skipping ends under the character that was read last. -/
theorem skipReads_of_skipWhile (h : c.skipWhile p = .ok d) : SkipReads p c d := by
  fun_induction skipWhile p c with
  | case1 c hend =>
    obtain rfl := Except.ok.inj h
    exact .here c
  | case2 => simp at h
  | case3 c hend ch hr hp ih => exact .next (by simpa using hend) hr hp (ih h)
  | case4 c hend ch hr hp =>
    obtain rfl := Except.ok.inj h
    exact .here c

theorem SkipReads.ahead (h : SkipReads p c d) (hc : c.position ≤ c.text.size) : Ahead c d := by
  induction h with
  | here c => exact ahead_refl hc
  | next _ _ _ _ ih => exact (ahead_next hc).trans (ih (ahead_next hc).le_size)

theorem ahead_skipWhile (hc : c.position ≤ c.text.size) (h : c.skipWhile p = .ok d) : Ahead c d :=
  (skipReads_of_skipWhile h).ahead hc

theorem ahead_readTo {quote : Char} (hc : c.position ≤ c.text.size)
    (h : c.readTo quote = .ok (cs, d)) : Ahead c d := by
  unfold readTo at h
  split at h
  · simp at h
  · next e he =>
    obtain ⟨-, rfl⟩ := Prod.mk.inj (Except.ok.inj h)
    exact ahead_skipWhile hc he

theorem ahead_readDoubled {quote : Char} (hc : c.position ≤ c.text.size)
    (h : c.readDoubled quote = .ok (cs, d)) : Ahead c d := by
  fun_induction readDoubled quote c generalizing cs d with
  | case1 => simp at h
  | case2 c cs' e he =>
    obtain ⟨-, rfl⟩ := Prod.mk.inj (Except.ok.inj h)
    exact ahead_readTo hc he
  | case3 => simp at h
  | case4 => simp at h
  | case5 c cs' e he hend rest d' hrest hr ih =>
    obtain ⟨-, rfl⟩ := Prod.mk.inj (Except.ok.inj h)
    have hce := ahead_readTo hc he
    have hstep := ahead_advance hce.le_size (n := 2) (by decide)
    exact hce.trans (hstep.trans (ih hstep.le_size hrest))
  | case6 c cs' e he =>
    obtain ⟨-, rfl⟩ := Prod.mk.inj (Except.ok.inj h)
    exact ahead_readTo hc he

theorem ahead_quoted {escape : Bool} (hc : c.position ≤ c.text.size)
    (h : c.quoted escape = .ok (cs, d)) : Ahead c d := by
  have hnext := ahead_next hc
  unfold quoted at h
  split at h
  · simp at h
  · split at h
    · exact hnext.trans (ahead_readDoubled hnext.le_size h)
    · exact hnext.trans (ahead_readTo hnext.le_size h)

/-- The cursors under which a character is read while `c` moves to the end of a block inside which
a number of further blocks are open. -/
inductive BlockReads (opener closer : List Char) : Nat → Cursor → Cursor → Prop
  | here (inner : Nat) (c : Cursor) : BlockReads opener closer inner c c
  | opener {inner : Nat} {c d : Cursor} {ch : Char} (hc : c.atEnd = false) (hr : c.peek = .ok ch)
    (ho : [ch] = opener) (hd : BlockReads opener closer (inner + 1) c.advance d) :
    BlockReads opener closer inner c d
  | closer {inner : Nat} {c d : Cursor} {ch : Char} (hc : c.atEnd = false) (hr : c.peek = .ok ch)
    (ho : [ch] ≠ opener) (hcl : [ch] = closer)
    (hd : BlockReads opener closer inner c.advance d) : BlockReads opener closer (inner + 1) c d
  | phrase {inner : Nat} {c d : Cursor} (hc : c.atEnd = false) (hr : c.peek = .ok '"')
    (hd : SkipReads (· != '"') c.advance d) : BlockReads opener closer inner c d
  | behindPhrase {inner : Nat} {c d e : Cursor} {cs : List Char} (hc : c.atEnd = false)
    (hr : c.peek = .ok '"') (hq : c.quoted = .ok (cs, e))
    (hd : BlockReads opener closer inner e.advance d) : BlockReads opener closer inner c d
  | other {inner : Nat} {c d : Cursor} {ch : Char} (hc : c.atEnd = false) (hr : c.peek = .ok ch)
    (ho : [ch] ≠ opener) (hcl : [ch] ≠ closer) (hq : ch ≠ '"')
    (hd : BlockReads opener closer inner c.advance d) : BlockReads opener closer inner c d

theorem blockReads_of_toBlockEnd (h : c.toBlockEnd opener closer inner = .ok d) :
    BlockReads opener closer inner c d := by
  fun_induction toBlockEnd opener closer inner c with
  | case1 =>
    obtain rfl := Except.ok.inj h
    exact .here _ _
  | case2 => simp at h
  | case3 inner c hend ch hr ho ih => exact .opener (by simpa using hend) hr ho (ih h)
  | case4 =>
    obtain rfl := Except.ok.inj h
    exact .here _ _
  | case5 c hend ch hr ho hcl inner ih => exact .closer (by simpa using hend) hr ho hcl (ih h)
  | case6 => simp at h
  | case7 inner c hend cs e hq hr ho hcl ih =>
    exact .behindPhrase (by simpa using hend) hr hq (ih h)
  | case8 inner c hend ch hr ho hcl hq ih => exact .other (by simpa using hend) hr ho hcl hq (ih h)

theorem BlockReads.ahead (h : BlockReads opener closer inner c d) (hc : c.position ≤ c.text.size) :
    Ahead c d := by
  induction h with
  | here => exact ahead_refl hc
  | opener _ _ _ _ ih | closer _ _ _ _ _ ih | other _ _ _ _ _ _ ih =>
    exact (ahead_next hc).trans (ih (ahead_next hc).le_size)
  | phrase _ _ hd => exact (ahead_next hc).trans (hd.ahead (ahead_next hc).le_size)
  | behindPhrase _ _ hq _ ih =>
    have he := ahead_quoted hc hq
    exact he.trans ((ahead_next he.le_size).trans (ih (ahead_next he.le_size).le_size))

theorem ahead_block (hc : c.position ≤ c.text.size) (h : c.block opener closer = .ok (cs, d)) :
    Ahead c d := by
  have hnext := ahead_next hc
  unfold block at h
  split at h
  · simp at h
  · next e he =>
    obtain ⟨-, rfl⟩ := Prod.mk.inj (Except.ok.inj h)
    exact hnext.trans ((blockReads_of_toBlockEnd he).ahead hnext.le_size)

theorem Inside.ahead_word {i : Item} (hc : c.Inside) (h : c.word = .ok (i, d)) : Ahead c d := by
  unfold word at h
  split at h
  · simp at h
  · next e he =>
    have hce := (ahead_next hc.le_size).trans (ahead_skipWhile hc.advance.le_size he)
    split at h
    · simp at h
    · obtain ⟨-, rfl⟩ := Prod.mk.inj (Except.ok.inj h)
      split
      · exact hce.trans (ahead_next hce.le_size)
      · exact hce

theorem Inside.ahead_phrase {i : Item} (hc : c.Inside) (h : c.phrase = .ok (i, d)) :
    Ahead c d := by
  unfold phrase at h
  split at h
  · simp at h
  · next e he =>
    obtain ⟨-, rfl⟩ := Prod.mk.inj (Except.ok.inj h)
    have hce := ahead_quoted hc.le_size he
    exact hce.trans (ahead_next hce.le_size)

theorem Inside.ahead_bracketed {b : Bracket} {i : Item} (hc : c.Inside)
    (h : c.bracketed b = .ok (i, d)) : Ahead c d := by
  unfold bracketed at h
  split at h
  · simp at h
  · next e he =>
    obtain ⟨-, rfl⟩ := Prod.mk.inj (Except.ok.inj h)
    have hce := ahead_block hc.le_size he
    exact hce.trans (ahead_next hce.le_size)

theorem Inside.ahead_itemHere {i : Item} (hc : c.Inside) (h : c.itemHere = .ok (i, d)) :
    Ahead c d := by
  unfold itemHere at h
  split at h
  · simp at h
  · split at h
    · exact hc.ahead_word h
    · split at h
      · exact hc.ahead_phrase h
      · split at h
        · exact hc.ahead_bracketed h
        · obtain ⟨-, rfl⟩ := Prod.mk.inj (Except.ok.inj h)
          exact ahead_next hc.le_size

theorem Inside.ahead_nextItem {i : Item} (hc : c.Inside) (h : c.nextItem = .ok (i, d)) :
    Ahead c d := by
  unfold nextItem at h
  split at h
  · simp at h
  · next e he =>
    have hce := ahead_skipWhile hc.le_size he
    exact hce.trans ((hce.inside hc).ahead_itemHere h)

/-- The cursors under which a character is read while the item under `c` is. -/
inductive ItemReads : Cursor → Cursor → Prop
  | here (c : Cursor) : ItemReads c c
  | word {c d : Cursor} (hd : SkipReads isWordChar c.advance d) : ItemReads c d
  | star {c d : Cursor} (hd : c.advance.skipWhile isWordChar = .ok d) : ItemReads c d
  | phrase {c d : Cursor} (hr : c.peek = .ok '"') (hd : SkipReads (· != '"') c.advance d) :
    ItemReads c d
  | block {c d : Cursor} (b : Bracket) (hr : c.peek = .ok b.opener)
    (hd : BlockReads [b.opener] [b.closer] 0 c.advance d) : ItemReads c d

theorem ItemReads.inside (h : ItemReads c d) (hc : c.Inside) : d.Inside := by
  cases h with
  | here => exact hc
  | word hd => exact (hd.ahead hc.advance.le_size).inside hc.advance
  | star hd => exact (ahead_skipWhile hc.advance.le_size hd).inside hc.advance
  | phrase _ hd => exact (hd.ahead hc.advance.le_size).inside hc.advance
  | block _ _ hd => exact (hd.ahead hc.advance.le_size).inside hc.advance

/-- The cursors under which a character is read while the next item is, behind any white space. -/
inductive NextReads : Cursor → Cursor → Prop
  | blank {c d : Cursor} (hd : SkipReads Text.isBlank c d) : NextReads c d
  | item {c d e : Cursor} (hb : c.skipWhile Text.isBlank = .ok d) (he : ItemReads d e) :
    NextReads c e

/-- No character is read outside a text. -/
theorem NextReads.inside (h : NextReads c d) (hc : c.Inside) : d.Inside := by
  cases h with
  | blank hd => exact (hd.ahead hc.le_size).inside hc
  | item hb he => exact he.inside ((ahead_skipWhile hc.le_size hb).inside hc)

end Cursor

end FullText
