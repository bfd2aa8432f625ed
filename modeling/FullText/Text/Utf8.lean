/-!
# Reading UTF-8

Bytes are decoded as they come in, in pieces of fixed length. A character is opened by its first
byte, which fixes how many bytes follow and the range of the second. When a piece ends inside a
character, its bytes so far are carried to the front of the next piece. The decoder refuses at the
first byte that does not fit, or at the end of the bytes when a character is still open. Only the
two bytes that could open a surrogate are let through until something follows them.
-/

namespace FullText.Text

/-- Why bytes are refused. -/
inductive Utf8Reason where
  | badStart
  | badContinuation
  | truncated
  deriving DecidableEq, Repr

def Utf8Reason.text : Utf8Reason → String
  | badStart => "invalid start byte"
  | badContinuation => "invalid continuation byte"
  | truncated => "unexpected end of data"

/-- Refused bytes: the offset of the first in its piece, and the bytes of the character so far. -/
structure Utf8Refusal where
  offset : Nat
  bytes : List UInt8
  reason : Utf8Reason
  deriving DecidableEq, Repr

/-- A character of which `bytes` have been read and `missing + 1` are still to come. -/
structure OpenChar where
  offset : Nat
  bytes : List UInt8
  missing : Nat
  low : UInt8
  high : UInt8
  code : Nat
  /-- Whether a byte has been let through that can only belong to a surrogate. -/
  surrogate : Bool
  deriving DecidableEq, Repr

namespace OpenChar

/-- What a first byte above the ASCII range opens, if anything. -/
def ofLead? (offset : Nat) (b : UInt8) : Option OpenChar :=
  if b < 0xC2 then none
  else if b < 0xE0 then some ⟨offset, [b], 0, 0x80, 0xBF, b.toNat - 0xC0, false⟩
  else if b < 0xF0 then
    let low := if b = 0xE0 then 0xA0 else 0x80
    let high := if b = 0xED then 0x9F else 0xBF
    some ⟨offset, [b], 1, low, high, b.toNat - 0xE0, false⟩
  else if b < 0xF5 then
    let low := if b = 0xF0 then 0x90 else 0x80
    let high := if b = 0xF4 then 0x8F else 0xBF
    some ⟨offset, [b], 2, low, high, b.toNat - 0xF0, false⟩
  else none

/-- The code after one more byte. -/
def extend (o : OpenChar) (b : UInt8) : Nat := o.code * 64 + (b.toNat - 0x80)

/-- Whether the byte makes a surrogate of what is open. -/
def opensSurrogate (o : OpenChar) (b : UInt8) : Bool :=
  o.bytes == [0xED] && decide (0xA0 ≤ b) && decide (b ≤ 0xBF)

/-- The reason to refuse what is open at the end of the bytes. -/
def endReason (o : OpenChar) : Utf8Reason := if o.surrogate then .badContinuation else .truncated

end OpenChar

/-- How far a decoder has come: the characters read, last one first, the character that is open,
the offset in the piece, and how much of the piece is still to come. -/
structure Utf8Decoder where
  chars : List Char := []
  opened : Option OpenChar := none
  offset : Nat := 0
  left : Nat
  deriving DecidableEq, Repr

namespace Utf8Decoder

/-- The length of a piece. -/
def pieceLength : Nat := 8192

/-- Goes on to the next piece if there is nothing left of this one. -/
def refill (d : Utf8Decoder) : Utf8Decoder :=
  if d.left = 0 then
    match d.opened with
    | none => { d with offset := 0, left := pieceLength }
    | some o =>
      { d with opened := some { o with offset := 0 }, offset := o.bytes.length,
               left := pieceLength }
  else d

/-- The decoder one byte further. -/
def next (d : Utf8Decoder) (chars : List Char) (opened : Option OpenChar) : Utf8Decoder :=
  { chars, opened, offset := d.offset + 1, left := d.left - 1 }

/-- Takes in a byte of the current piece. -/
def step (d : Utf8Decoder) (b : UInt8) : Except Utf8Refusal Utf8Decoder :=
  match d.opened with
  | none =>
    if b < 0x80 then .ok (d.next (Char.ofNat b.toNat :: d.chars) none)
    else
      match OpenChar.ofLead? d.offset b with
      | none => .error ⟨d.offset, [b], .badStart⟩
      | some o => .ok (d.next d.chars (some o))
  | some o =>
    if o.surrogate then .error ⟨o.offset, o.bytes, .badContinuation⟩
    else if o.opensSurrogate b then .ok (d.next d.chars (some { o with surrogate := true }))
    else if o.low ≤ b ∧ b ≤ o.high then
      match o.missing with
      | 0 => .ok (d.next (Char.ofNat (o.extend b) :: d.chars) none)
      | m + 1 =>
        .ok (d.next d.chars (some ⟨o.offset, o.bytes ++ [b], m, 0x80, 0xBF, o.extend b, false⟩))
    else .error ⟨o.offset, o.bytes, .badContinuation⟩

/-- What has been read when no more bytes come. A character that is still open then stands at the
front of a piece of its own. -/
def finish (d : Utf8Decoder) : Except Utf8Refusal (List Char) :=
  match d.opened with
  | none => .ok d.chars.reverse
  | some o => .error ⟨0, o.bytes, o.endReason⟩

end Utf8Decoder

/-- The characters that the bytes encode. -/
def decodeUtf8 (bytes : List UInt8) : Except Utf8Refusal (List Char) := do
  let start : Utf8Decoder := { left := Utf8Decoder.pieceLength }
  let d ← bytes.foldlM (fun d b => d.refill.step b) start
  d.finish

/-- The bytes that encode a text. -/
def encodeUtf8 (s : String) : List UInt8 := s.toUTF8.data.toList

end FullText.Text
