import FullText.Value

/-!
# Writing JSON

A value is written on one line, or over lines that are indented by a number of spaces a level.
Characters beyond ASCII are written as they are, and numbers without digits by name.
-/

namespace FullText

namespace Json

/-- How a character is written inside a string. -/
def escapeChar (c : Char) : List Char :=
  if c = '"' then ['\\', '"']
  else if c = '\\' then ['\\', '\\']
  else if c = '\n' then ['\\', 'n']
  else if c = '\r' then ['\\', 'r']
  else if c = '\t' then ['\\', 't']
  else if c = '\x08' then ['\\', 'b']
  else if c = '\x0c' then ['\\', 'f']
  else if c.toNat < 0x20 then '\\' :: 'u' :: Text.hexDigits 4 c.toNat
  else [c]

/-- A string in front of `rest`. -/
def writeString (s : String) (rest : List Char) : List Char :=
  '"' :: s.toList.flatMap escapeChar ++ '"' :: rest

def writeInt (n : Int) (rest : List Char) : List Char :=
  if n < 0 then '-' :: Nat.toDigits 10 n.natAbs ++ rest else Nat.toDigits 10 n.natAbs ++ rest

/-- A number in front of `rest`. What has no digits is written by name. -/
def writeFloat (x : Binary64) (rest : List Char) : List Char :=
  match x with
  | .nan => "NaN".toList ++ rest
  | .infinite negative => Binary64.sign negative "Infinity".toList ++ rest
  | x => x.shown.toList ++ rest

/-- A line break and the indentation of a level, if there are line breaks. -/
def lineBreak (indent : Option Int) (level : Nat) (rest : List Char) : List Char :=
  match indent with
  | none => rest
  | some width => '\n' :: List.replicate (width.toNat * level) ' ' ++ rest

/-- What separates two items. -/
def separator (indent : Option Int) (level : Nat) (rest : List Char) : List Char :=
  match indent with
  | none => ',' :: ' ' :: rest
  | some _ => ',' :: lineBreak indent level rest

mutual

/-- A value in front of `rest`. -/
def write (indent : Option Int) (level : Nat) : Value → List Char → List Char
  | .null, rest => 'n' :: 'u' :: 'l' :: 'l' :: rest
  | .bool true, rest => 't' :: 'r' :: 'u' :: 'e' :: rest
  | .bool false, rest => 'f' :: 'a' :: 'l' :: 's' :: 'e' :: rest
  | .int n, rest => writeInt n rest
  | .float x, rest => writeFloat x rest
  | .text s, rest => writeString s rest
  | .list [], rest => '[' :: ']' :: rest
  | .list (v :: vs), rest =>
    '[' :: lineBreak indent (level + 1)
      (write indent (level + 1) v
        (writeItems indent (level + 1) vs (lineBreak indent level (']' :: rest))))
  | .record [], rest => '\x7b' :: '\x7d' :: rest
  | .record ((k, v) :: fs), rest =>
    '\x7b' :: lineBreak indent (level + 1)
      (writeString k (':' :: ' ' :: write indent (level + 1) v
        (writeFields indent (level + 1) fs (lineBreak indent level ('\x7d' :: rest)))))

/-- The further items of a list. -/
def writeItems (indent : Option Int) (level : Nat) : List Value → List Char → List Char
  | [], rest => rest
  | v :: vs, rest =>
    separator indent level (write indent level v (writeItems indent level vs rest))

/-- The further fields of a record. -/
def writeFields (indent : Option Int) (level : Nat) :
    List (String × Value) → List Char → List Char
  | [], rest => rest
  | (k, v) :: fs, rest =>
    separator indent level
      (writeString k (':' :: ' ' :: write indent level v (writeFields indent level fs rest)))

end

/-- The text of a value. -/
def render (indent : Option Int) (v : Value) : String := String.ofList (write indent 0 v [])

end Json

end FullText
