import FullText.Value

/-!
# Reading JSON

A reader for the whole of JSON, and for the names of the numbers that have no digits. A number
without fraction and exponent is read as an integer, and the fields of a record keep their order. Of
any two steps in a row the reader takes, one uses up a character, so a text is read in at most twice
as many steps as it is long.
-/

namespace FullText

namespace Json

def isSpace (c : Char) : Bool := c == ' ' || c == '\n' || c == '\r' || c == '\t'

def skipSpace (cs : List Char) : List Char := cs.dropWhile isSpace

def hexValue? (c : Char) : Option Nat :=
  if '0' ≤ c ∧ c ≤ '9' then some (c.toNat - '0'.toNat)
  else if 'a' ≤ c ∧ c ≤ 'f' then some (c.toNat - 'a'.toNat + 10)
  else if 'A' ≤ c ∧ c ≤ 'F' then some (c.toNat - 'A'.toNat + 10)
  else none

/-- The value of four hexadecimal digits. -/
def hexCode? (a b c d : Char) : Option Nat := do
  return ((← hexValue? a) * 16 + (← hexValue? b)) * 256 + (← hexValue? c) * 16 + (← hexValue? d)

/-- The code of the character that a one-letter escape stands for. -/
def escapeCode? (c : Char) : Option Nat :=
  if c = '"' ∨ c = '\\' ∨ c = '/' then some c.toNat
  else if c = 'n' then some 0x0A
  else if c = 'r' then some 0x0D
  else if c = 't' then some 0x09
  else if c = 'b' then some 0x08
  else if c = 'f' then some 0x0C
  else none

/-- Reads a string up to its closing quote: the codes in it, the last one first and before those in
`codes`, and what follows. A control character has to be escaped. -/
def readCodes (codes : List Nat) : List Char → Option (List Nat × List Char)
  | [] => none
  | '"' :: rest => some (codes, rest)
  | '\\' :: 'u' :: a :: b :: c :: d :: rest =>
    match hexCode? a b c d with
    | some code => readCodes (code :: codes) rest
    | none => none
  | '\\' :: e :: rest =>
    match escapeCode? e with
    | some code => readCodes (code :: codes) rest
    | none => none
  | c :: rest => if c.toNat < 0x20 then none else readCodes (c.toNat :: codes) rest

/-- The characters of codes, which come last one first, in front of `cs`. Two surrogate codes in a
row stand for one character. -/
def charsOfCodes (cs : List Char) : List Nat → List Char
  | [] => cs
  | low :: high :: codes =>
    if 0xD800 ≤ high ∧ high < 0xDC00 ∧ 0xDC00 ≤ low ∧ low < 0xE000 then
      charsOfCodes (Char.ofNat (0x10000 + (high - 0xD800) * 0x400 + (low - 0xDC00)) :: cs) codes
    else charsOfCodes (Char.ofNat low :: cs) (high :: codes)
  | [code] => Char.ofNat code :: cs

def readString (cs : List Char) : Option (String × List Char) :=
  (readCodes [] cs).map fun r => (String.ofList (charsOfCodes [] r.1), r.2)

/-- The digits in front, of which there has to be one, and what follows. -/
def readDigits (cs : List Char) : Option (List Char × List Char) :=
  match cs.takeWhile Char.isDigit with
  | [] => none
  | ds => some (ds, cs.dropWhile Char.isDigit)

/-- The digits of a whole number, which starts with a zero only if it is zero. -/
def readWhole (cs : List Char) : Option (List Char × List Char) :=
  match readDigits cs with
  | some ('0' :: _ :: _, _) => none
  | r => r

def digitsValue (ds : List Char) : Nat := ds.foldl (fun n d => n * 10 + (d.toNat - '0'.toNat)) 0

/-- The digits of a fraction, none if there is no point. -/
def readFraction : List Char → Option (List Char × List Char)
  | '.' :: cs => readDigits cs
  | cs => some ([], cs)

/-- An exponent, if there is one. -/
def readExponent : List Char → Option (Option Int × List Char)
  | e :: cs =>
    if e = 'e' ∨ e = 'E' then
      match cs with
      | '-' :: cs => (readDigits cs).map fun r => (some (-(digitsValue r.1 : Int)), r.2)
      | '+' :: cs => (readDigits cs).map fun r => (some (digitsValue r.1 : Int), r.2)
      | cs => (readDigits cs).map fun r => (some (digitsValue r.1 : Int), r.2)
    else some (none, e :: cs)
  | [] => some (none, [])

/-- A number without its sign. -/
def readMagnitude (negative : Bool) (cs : List Char) : Option (Value × List Char) := do
  let (whole, cs) ← readWhole cs
  let (fraction, cs) ← readFraction cs
  let (exponent, cs) ← readExponent cs
  let digits := digitsValue (whole ++ fraction)
  match fraction, exponent with
  | [], none => return (.int (if negative then -digits else digits), cs)
  | _, _ =>
    return (.float (.ofDecimal negative digits (exponent.getD 0 - fraction.length)), cs)

/-- A number, which may also be one of the names of what has no digits. -/
def readNumber : List Char → Option (Value × List Char)
  | 'N' :: 'a' :: 'N' :: cs => some (.float .nan, cs)
  | 'I' :: 'n' :: 'f' :: 'i' :: 'n' :: 'i' :: 't' :: 'y' :: cs =>
    some (.float (.infinite false), cs)
  | '-' :: 'I' :: 'n' :: 'f' :: 'i' :: 'n' :: 'i' :: 't' :: 'y' :: cs =>
    some (.float (.infinite true), cs)
  | '-' :: cs => readMagnitude true cs
  | cs => readMagnitude false cs

mutual

/-- A value and what follows it, in at most the given number of steps. -/
def readValue : Nat → List Char → Option (Value × List Char)
  | 0, _ => none
  | steps + 1, cs =>
    match skipSpace cs with
    | '"' :: cs => (readString cs).map fun r => (.text r.1, r.2)
    | '[' :: cs =>
      match skipSpace cs with
      | ']' :: cs => some (.list [], cs)
      | cs => (readItems steps cs).map fun r => (.list r.1, r.2)
    | '\x7b' :: cs =>
      match skipSpace cs with
      | '\x7d' :: cs => some (.record [], cs)
      | cs => (readFields steps cs).map fun r => (.record r.1, r.2)
    | 'n' :: 'u' :: 'l' :: 'l' :: cs => some (.null, cs)
    | 't' :: 'r' :: 'u' :: 'e' :: cs => some (.bool true, cs)
    | 'f' :: 'a' :: 'l' :: 's' :: 'e' :: cs => some (.bool false, cs)
    | cs => readNumber cs

/-- The items of a list up to its closing bracket. -/
def readItems : Nat → List Char → Option (List Value × List Char)
  | 0, _ => none
  | steps + 1, cs =>
    match readValue steps cs with
    | none => none
    | some (v, cs) =>
      match skipSpace cs with
      | ',' :: cs => (readItems steps cs).map fun r => (v :: r.1, r.2)
      | ']' :: cs => some ([v], cs)
      | _ => none

/-- The fields of a record up to its closing brace. -/
def readFields : Nat → List Char → Option (List (String × Value) × List Char)
  | 0, _ => none
  | steps + 1, cs =>
    match skipSpace cs with
    | '"' :: cs =>
      match readString cs with
      | none => none
      | some (k, cs) =>
        match skipSpace cs with
        | ':' :: cs =>
          match readValue steps cs with
          | none => none
          | some (v, cs) =>
            match skipSpace cs with
            | ',' :: cs => (readFields steps cs).map fun r => ((k, v) :: r.1, r.2)
            | '\x7d' :: cs => some ([(k, v)], cs)
            | _ => none
        | _ => none
    | _ => none

end

/-- The value of a text that holds one value and white space. -/
def parse? (s : String) : Option Value :=
  match readValue (2 * s.toList.length + 1) s.toList with
  | some (v, cs) => if (skipSpace cs).isEmpty then some v else none
  | none => none

end Json

end FullText
