import Mathlib.Data.List.Basic
import FullText.Text.Utf8

/-!
# Encoded text is decoded

The bytes of one character take the decoder from one character to the next
(`Utf8Decoder.Between.take_char`), wherever pieces end in between, so the bytes of a text are
decoded to its characters (`decodeUtf8_encodeUtf8`).
-/

namespace FullText.Text

namespace Utf8Decoder

variable {d : Utf8Decoder} {b low high : UInt8} {bytes : List UInt8} {chars : List Char}
  {code i j k missing n : Nat}

/-- Between two characters, with some characters read. -/
structure Between (d : Utf8Decoder) (chars : List Char) : Prop where
  opened : d.opened = none
  chars : d.chars = chars

/-- Inside a character, which is no surrogate so far. -/
structure Awaits (d : Utf8Decoder) (chars : List Char) (bytes : List UInt8) (missing : Nat)
    (low high : UInt8) (code : Nat) : Prop where
  opened : ∃ offset, d.opened = some ⟨offset, bytes, missing, low, high, code, false⟩
  chars : d.chars = chars

theorem Between.refill (h : d.Between chars) : d.refill.Between chars := by
  unfold Utf8Decoder.refill
  rw [h.opened]
  split
  · exact ⟨rfl, h.chars⟩
  · exact h

theorem Awaits.refill (h : d.Awaits chars bytes missing low high code) :
    d.refill.Awaits chars bytes missing low high code := by
  obtain ⟨⟨offset, hopened⟩, hchars⟩ := h
  unfold Utf8Decoder.refill
  rw [hopened]
  split
  · exact ⟨⟨0, rfl⟩, hchars⟩
  · exact ⟨⟨offset, hopened⟩, hchars⟩

/-! ## One byte -/

theorem Between.take_ascii (h : d.Between chars) (hb : b < 0x80) :
    ∃ d', d.refill.step b = .ok d' ∧ d'.Between (Char.ofNat b.toNat :: chars) := by
  obtain ⟨hopened, hchars⟩ := h.refill
  refine ⟨d.refill.next (Char.ofNat b.toNat :: chars) none, ?_, rfl, rfl⟩
  rw [step, hopened, hchars]
  exact if_pos hb

theorem Between.take_lead (h : d.Between chars) (hb : 128 ≤ b.toNat)
    (hlead : ∀ offset, OpenChar.ofLead? offset b =
      some ⟨offset, [b], missing, low, high, code, false⟩) :
    ∃ d', d.refill.step b = .ok d' ∧ d'.Awaits chars [b] missing low high code := by
  obtain ⟨hopened, hchars⟩ := h.refill
  refine ⟨d.refill.next chars (some ⟨d.refill.offset, [b], missing, low, high, code, false⟩), ?_,
    ⟨_, rfl⟩, rfl⟩
  rw [step, hopened, hchars]
  simp only
  rw [if_neg (UInt8.not_lt.mpr hb), hlead]

/-- The byte has six bits that go on with a character, and makes no surrogate of it. -/
structure Continues (bytes : List UInt8) (low high b : UInt8) (k : Nat) : Prop where
  toNat_eq : b.toNat = k + 128
  low_le : low ≤ b
  le_high : b ≤ high
  surrogate : bytes = [0xED] → k < 32

theorem Awaits.step_eq (h : d.Awaits chars bytes missing low high code)
    (hk : Continues bytes low high b k) : ∃ offset, d.step b =
      match missing with
      | 0 => .ok (d.next (Char.ofNat (code * 64 + k) :: chars) none)
      | m + 1 => .ok (d.next chars (some
          ⟨offset, bytes ++ [b], m, 0x80, 0xBF, code * 64 + k, false⟩)) := by
  obtain ⟨⟨offset, hopened⟩, hchars⟩ := h
  obtain ⟨hbyte, hlow, hhigh, hsurrogate⟩ := hk
  have hopens :
      OpenChar.opensSurrogate ⟨offset, bytes, missing, low, high, code, false⟩ b = false := by
    unfold OpenChar.opensSurrogate
    by_cases hbytes : bytes = [0xED]
    · have hle : ¬(0xA0 : UInt8) ≤ b := by
        rw [UInt8.le_iff_toNat_le, hbyte]
        have := hsurrogate hbytes
        show ¬160 ≤ k + 128
        omega
      rw [decide_eq_false hle, Bool.and_false, Bool.false_and]
    · rw [beq_eq_false_iff_ne.mpr hbytes, Bool.false_and, Bool.false_and]
  have hextend :
      OpenChar.extend ⟨offset, bytes, missing, low, high, code, false⟩ b = code * 64 + k := by
    show code * 64 + (b.toNat - 128) = _
    omega
  refine ⟨offset, ?_⟩
  rw [step, hopened, hchars]
  simp only [Bool.false_eq_true, if_false, hopens, hextend]
  exact if_pos ⟨hlow, hhigh⟩

theorem Awaits.take_last (h : d.Awaits chars bytes 0 low high code)
    (hk : Continues bytes low high b k) :
    ∃ d', d.refill.step b = .ok d' ∧ d'.Between (Char.ofNat (code * 64 + k) :: chars) := by
  obtain ⟨offset, hstep⟩ := h.refill.step_eq hk
  exact ⟨_, hstep, rfl, rfl⟩

theorem Awaits.take_next (h : d.Awaits chars bytes (missing + 1) low high code)
    (hk : Continues bytes low high b k) : ∃ d', d.refill.step b = .ok d' ∧
      d'.Awaits chars (bytes ++ [b]) missing 0x80 0xBF (code * 64 + k) := by
  obtain ⟨offset, hstep⟩ := h.refill.step_eq hk
  exact ⟨_, hstep, ⟨offset, rfl⟩, rfl⟩

/-! ## First bytes -/

theorem ofLead?_two (hb : b.toNat = n + 192) (hn : 2 ≤ n) (h : n < 32) (offset : Nat) :
    OpenChar.ofLead? offset b = some ⟨offset, [b], 0, 0x80, 0xBF, n, false⟩ := by
  unfold OpenChar.ofLead?
  simp only [UInt8.lt_iff_toNat_lt, hb, UInt8.reduceToNat]
  rw [if_neg (by omega), if_pos (by omega), Nat.add_sub_cancel]

theorem ofLead?_three (hb : b.toNat = n + 224) (h : n < 16) (offset : Nat) :
    OpenChar.ofLead? offset b = some ⟨offset, [b], 1, if n = 0 then 0xA0 else 0x80,
      if n = 13 then 0x9F else 0xBF, n, false⟩ := by
  have hlow : n + 224 = 224 ↔ n = 0 := by omega
  have hhigh : n + 224 = 237 ↔ n = 13 := by omega
  unfold OpenChar.ofLead?
  simp only [UInt8.lt_iff_toNat_lt, ← UInt8.toNat_inj, hb, UInt8.reduceToNat, hlow, hhigh]
  rw [if_neg (by omega), if_neg (by omega), if_pos (by omega), Nat.add_sub_cancel]

theorem ofLead?_four (hb : b.toNat = n + 240) (h : n < 5) (offset : Nat) :
    OpenChar.ofLead? offset b = some ⟨offset, [b], 2, if n = 0 then 0x90 else 0x80,
      if n = 4 then 0x8F else 0xBF, n, false⟩ := by
  have hlow : n + 240 = 240 ↔ n = 0 := by omega
  have hhigh : n + 240 = 244 ↔ n = 4 := by omega
  unfold OpenChar.ofLead?
  simp only [UInt8.lt_iff_toNat_lt, ← UInt8.toNat_inj, hb, UInt8.reduceToNat, hlow, hhigh]
  rw [if_neg (by omega), if_neg (by omega), if_neg (by omega), if_pos (by omega),
    Nat.add_sub_cancel]

/-! ## Characters -/

/-- The decoder after some bytes. -/
def takeAll (d : Utf8Decoder) (bytes : List UInt8) : Except Utf8Refusal Utf8Decoder :=
  bytes.foldlM (fun d b => d.refill.step b) d

theorem takeAll_cons {d' : Utf8Decoder} (h : d.refill.step b = .ok d') (bytes : List UInt8) :
    d.takeAll (b :: bytes) = d'.takeAll bytes := by
  unfold takeAll
  rw [List.foldlM_cons, h]
  rfl

theorem takeAll_append {d' : Utf8Decoder} (h : d.takeAll bytes = .ok d') (more : List UInt8) :
    d.takeAll (bytes ++ more) = d'.takeAll more := by
  unfold takeAll at h ⊢
  rw [List.foldlM_append, h]
  rfl

theorem toNat_ofNat (h : n < 256) : (UInt8.ofNat n).toNat = n := UInt8.toNat_ofNat_of_lt' h

theorem continues_ofNat (hk : k < 64) (hlow : low.toNat ≤ k + 128) (hhigh : k + 128 ≤ high.toNat)
    (hsurrogate : bytes = [0xED] → k < 32) : Continues bytes low high (.ofNat (k + 128)) k := by
  have hbyte : (UInt8.ofNat (k + 128)).toNat = k + 128 := toNat_ofNat (by omega)
  refine ⟨hbyte, ?_, ?_, hsurrogate⟩
  · rwa [UInt8.le_iff_toNat_le, hbyte]
  · rwa [UInt8.le_iff_toNat_le, hbyte]

theorem singleton_ne_surrogate (h : b.toNat ≠ 0xED) : [b] ≠ [0xED] := by
  intro heq
  rw [(List.cons.inj heq).1] at h
  exact h rfl

theorem continues_plain (hk : k < 64) (hbytes : bytes ≠ [0xED]) :
    Continues bytes 0x80 0xBF (.ofNat (k + 128)) k := by
  refine continues_ofNat hk ?_ ?_ fun h => absurd h hbytes
  · exact Nat.le_add_left 128 k
  · show k + 128 ≤ 191
    omega

/-- The second byte of three leaves out what is encoded in two bytes, and surrogates. -/
theorem continues_three (hn : n < 16) (hk : k < 64) (hlow : n = 0 → 32 ≤ k)
    (hhigh : n = 13 → k < 32) :
    Continues [.ofNat (n + 224)] (if n = 0 then 0xA0 else 0x80) (if n = 13 then 0x9F else 0xBF)
      (.ofNat (k + 128)) k := by
  have hlead : (UInt8.ofNat (n + 224)).toNat = n + 224 := toNat_ofNat (by omega)
  refine continues_ofNat hk ?_ ?_ fun h => ?_
  · split <;> simp only [UInt8.reduceToNat] <;> omega
  · split <;> simp only [UInt8.reduceToNat] <;> omega
  · by_cases h13 : n = 13
    · exact hhigh h13
    · exact absurd h (singleton_ne_surrogate (by omega))

/-- The second byte of four leaves out what is encoded in three bytes, and what is no character. -/
theorem continues_four (hn : n < 5) (hk : k < 64) (hlow : n = 0 → 16 ≤ k)
    (hhigh : n = 4 → k < 16) :
    Continues [.ofNat (n + 240)] (if n = 0 then 0x90 else 0x80) (if n = 4 then 0x8F else 0xBF)
      (.ofNat (k + 128)) k := by
  have hlead : (UInt8.ofNat (n + 240)).toNat = n + 240 := toNat_ofNat (by omega)
  refine continues_ofNat hk ?_ ?_ fun h => absurd h (singleton_ne_surrogate (by omega))
  · split <;> simp only [UInt8.reduceToNat] <;> omega
  · split <;> simp only [UInt8.reduceToNat] <;> omega

theorem Between.take_two (h : d.Between chars) (hn : 2 ≤ n) (hn' : n < 32) (hk : k < 64) :
    ∃ d', d.takeAll [.ofNat (n + 192), .ofNat (k + 128)] = .ok d' ∧
      d'.Between (Char.ofNat (n * 64 + k) :: chars) := by
  have hlead : (UInt8.ofNat (n + 192)).toNat = n + 192 := toNat_ofNat (by omega)
  obtain ⟨d₁, hd₁, h₁⟩ := h.take_lead (by omega) (ofLead?_two hlead hn hn')
  obtain ⟨d₂, hd₂, h₂⟩ := h₁.take_last (continues_plain hk (singleton_ne_surrogate (by omega)))
  refine ⟨d₂, ?_, h₂⟩
  rw [takeAll_cons hd₁, takeAll_cons hd₂]
  rfl

theorem Between.take_three (h : d.Between chars) (hn : n < 16) (hk : k < 64) (hj : j < 64)
    (hlow : n = 0 → 32 ≤ k) (hhigh : n = 13 → k < 32) :
    ∃ d', d.takeAll [.ofNat (n + 224), .ofNat (k + 128), .ofNat (j + 128)] = .ok d' ∧
      d'.Between (Char.ofNat ((n * 64 + k) * 64 + j) :: chars) := by
  have hlead : (UInt8.ofNat (n + 224)).toNat = n + 224 := toNat_ofNat (by omega)
  obtain ⟨d₁, hd₁, h₁⟩ := h.take_lead (by omega) (ofLead?_three hlead hn)
  obtain ⟨d₂, hd₂, h₂⟩ := h₁.take_next (continues_three hn hk hlow hhigh)
  obtain ⟨d₃, hd₃, h₃⟩ := h₂.take_last (continues_plain hj (by simp))
  refine ⟨d₃, ?_, h₃⟩
  rw [takeAll_cons hd₁, takeAll_cons hd₂, takeAll_cons hd₃]
  rfl

theorem Between.take_four (h : d.Between chars) (hn : n < 5) (hk : k < 64) (hj : j < 64)
    (hi : i < 64) (hlow : n = 0 → 16 ≤ k) (hhigh : n = 4 → k < 16) :
    ∃ d', d.takeAll [.ofNat (n + 240), .ofNat (k + 128), .ofNat (j + 128), .ofNat (i + 128)] =
        .ok d' ∧ d'.Between (Char.ofNat (((n * 64 + k) * 64 + j) * 64 + i) :: chars) := by
  have hlead : (UInt8.ofNat (n + 240)).toNat = n + 240 := toNat_ofNat (by omega)
  obtain ⟨d₁, hd₁, h₁⟩ := h.take_lead (by omega) (ofLead?_four hlead hn)
  obtain ⟨d₂, hd₂, h₂⟩ := h₁.take_next (continues_four hn hk hlow hhigh)
  obtain ⟨d₃, hd₃, h₃⟩ := h₂.take_next (continues_plain hj (by simp))
  obtain ⟨d₄, hd₄, h₄⟩ := h₃.take_last (continues_plain hi (by simp))
  refine ⟨d₄, ?_, h₄⟩
  rw [takeAll_cons hd₁, takeAll_cons hd₂, takeAll_cons hd₃, takeAll_cons hd₄]
  rfl

/-- The bytes of a character are read as that character. -/
theorem Between.take_char (h : d.Between chars) (c : Char) :
    ∃ d', d.takeAll (String.utf8EncodeChar c) = .ok d' ∧ d'.Between (c :: chars) := by
  have hvalid : c.val.toNat < 55296 ∨ 57343 < c.val.toNat ∧ c.val.toNat < 1114112 := c.valid
  have hc : Char.ofNat c.val.toNat = c := Char.ofNat_toNat c
  unfold String.utf8EncodeChar
  simp only
  generalize c.val.toNat = v at hvalid hc
  split
  · next hv =>
    have hbyte : (UInt8.ofNat v).toNat = v := toNat_ofNat (by omega)
    have hascii : UInt8.ofNat v < 0x80 := by
      rw [UInt8.lt_iff_toNat_lt, hbyte]
      exact Nat.lt_succ_of_le hv
    obtain ⟨d', hd', h'⟩ := h.take_ascii hascii
    rw [hbyte, hc] at h'
    exact ⟨d', takeAll_cons hd' [], h'⟩
  split
  · obtain ⟨d', hd', h'⟩ :=
      h.take_two (n := v / 64 % 32) (k := v % 64) (by omega) (by omega) (by omega)
    have hcode : v / 64 % 32 * 64 + v % 64 = v := by omega
    rw [hcode, hc] at h'
    exact ⟨d', hd', h'⟩
  split
  · obtain ⟨d', hd', h'⟩ := h.take_three (n := v / 4096 % 16) (k := v / 64 % 64) (j := v % 64)
      (by omega) (by omega) (by omega) (by omega) (by omega)
    have hcode : (v / 4096 % 16 * 64 + v / 64 % 64) * 64 + v % 64 = v := by omega
    rw [hcode, hc] at h'
    exact ⟨d', hd', h'⟩
  · obtain ⟨d', hd', h'⟩ := h.take_four (n := v / 262144 % 8) (k := v / 4096 % 64)
      (j := v / 64 % 64) (i := v % 64) (by omega) (by omega) (by omega) (by omega) (by omega)
      (by omega)
    have hcode : ((v / 262144 % 8 * 64 + v / 4096 % 64) * 64 + v / 64 % 64) * 64 + v % 64 = v := by
      omega
    rw [hcode, hc] at h'
    exact ⟨d', hd', h'⟩

/-- The bytes of characters are read as these characters. -/
theorem Between.take_chars (h : d.Between chars) (cs : List Char) :
    ∃ d', d.takeAll (cs.flatMap String.utf8EncodeChar) = .ok d' ∧
      d'.Between (cs.reverse ++ chars) := by
  induction cs generalizing d chars with
  | nil => exact ⟨d, rfl, h⟩
  | cons c cs ih =>
    obtain ⟨d₁, hd₁, h₁⟩ := h.take_char c
    obtain ⟨d₂, hd₂, h₂⟩ := ih h₁
    refine ⟨d₂, ?_, ?_⟩
    · rw [List.flatMap_cons, takeAll_append hd₁, hd₂]
    · rwa [List.reverse_cons, List.append_assoc, List.singleton_append]

end Utf8Decoder

theorem encodeUtf8_eq (s : String) : encodeUtf8 s = s.toList.flatMap String.utf8EncodeChar := by
  unfold encodeUtf8 String.toUTF8
  rw [← String.utf8Encode_toList, List.utf8Encode, List.toList_data_toByteArray]

/-- **Decoding.** The bytes that encode a text are decoded to its characters. -/
theorem decodeUtf8_encodeUtf8 (s : String) : decodeUtf8 (encodeUtf8 s) = .ok s.toList := by
  have hstart : Utf8Decoder.Between { left := Utf8Decoder.pieceLength } [] := ⟨rfl, rfl⟩
  obtain ⟨d, hd, hopened, hchars⟩ := hstart.take_chars s.toList
  unfold decodeUtf8
  show Utf8Decoder.takeAll _ _ >>= _ = _
  rw [encodeUtf8_eq, hd]
  show d.finish = _
  rw [Utf8Decoder.finish, hopened, hchars, List.append_nil, List.reverse_reverse]

end FullText.Text
