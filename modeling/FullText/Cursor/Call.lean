import FullText.Cursor.Basic

/-!
# Calls on a cursor

The operations of a cursor as data, for running any sequence of them. A call answers with a text,
with a character as a text, or with nothing, and leaves a cursor behind, also when it fails.
-/

namespace FullText

namespace Cursor

inductive Call where
  | reset (text : String)
  | peek (ahead : Int)
  | advance (n : Int)
  | slice (start stop : Int)
  | skipBlanks
  /-- Skips a run of any of the characters. -/
  | skipAny (chars : String)
  /-- Moves to the next of any of the characters. -/
  | findAny (chars : String)
  | findBlank
  | quoted (escape : Bool)
  | block (opener closer : String)
  deriving DecidableEq, Repr

/-- The answer of a call that succeeds, and the cursor that it leaves behind. -/
def answer (c : Cursor) : Call → Except Fault (Option (List Char) × Cursor)
  | .reset text => .ok (none, ofString text)
  | .peek ahead => (fun ch => (some [ch], c)) <$> c.peek ahead
  | .advance n => .ok (none, c.advance n)
  | .slice start stop => .ok (some (c.slice start stop), c)
  | .skipBlanks => (none, ·) <$> c.skipWhile Text.isBlank
  | .skipAny chars => (none, ·) <$> c.skipWhile fun ch => chars.toList.contains ch
  | .findAny chars => (none, ·) <$> c.skipWhile fun ch => !chars.toList.contains ch
  | .findBlank => (none, ·) <$> c.skipWhile fun ch => !Text.isBlank ch
  | .quoted escape => (fun r => (some r.1, r.2)) <$> c.quoted escape
  | .block opener closer => (fun r => (some r.1, r.2)) <$> c.block opener.toList closer.toList

/-- Where a call that fails leaves the cursor. Only the opening mark of a block is passed before
anything is read. -/
def afterFault (c : Cursor) : Call → Cursor
  | .block _ _ => c.advance
  | _ => c

/-- Carries out a call. -/
def run (c : Cursor) (call : Call) : Except Fault (Option (List Char)) × Cursor :=
  match c.answer call with
  | .ok (text, d) => (.ok text, d)
  | .error f => (.error f, c.afterFault call)

/-- The cursor after a sequence of calls. -/
def runAll (c : Cursor) (calls : List Call) : Cursor :=
  calls.foldl (fun d call => (d.run call).2) c

end Cursor

end FullText
