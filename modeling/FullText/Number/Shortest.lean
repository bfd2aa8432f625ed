import FullText.Number.Binary64

/-!
# The shortest text of a number

A number is written with the fewest decimal digits that read back as it, and of the decimals with so
many digits with the one nearest to it. Where the first digit stands between 10^-4 and 10^15 the
text is positional and has a point in it, elsewhere it has an exponent of at least two digits.
-/

namespace FullText

/-- The decimal `digits * 10 ^ exponent`. -/
structure Decimal where
  digits : Nat
  exponent : Int
  deriving DecidableEq, Repr

namespace Decimal

/-- The text of digits, of which the first stands `point` places before the point. -/
def layOut (digits : List Char) (point : Int) : List Char :=
  if -4 < point ∧ point ≤ 16 then
    if point ≤ 0 then '0' :: '.' :: List.replicate (-point).toNat '0' ++ digits
    else
      let whole := digits.take point.toNat
      let zeros := List.replicate (point.toNat - digits.length) '0'
      let rest := digits.drop point.toNat
      whole ++ zeros ++ '.' :: (if rest.isEmpty then ['0'] else rest)
  else
    let power := point - 1
    let written := Nat.toDigits 10 power.natAbs
    let padded := if written.length < 2 then '0' :: written else written
    digits.take 1 ++ (if digits.length ≤ 1 then [] else '.' :: digits.drop 1) ++
      'e' :: (if power < 0 then '-' else '+') :: padded

/-- The text of a decimal, without the zeros at the end of its digits. -/
def write (d : Decimal) : List Char :=
  let digits := Nat.toDigits 10 d.digits
  layOut (digits.reverse.dropWhile (· == '0')).reverse (digits.length + d.exponent)

end Decimal

namespace Binary64

/-- Decimal places enough for every number to have digits before the last of them. -/
def places : Nat := 400

/-- The decimal of `count` digits nearest to `m * 2 ^ e` among those that read back as it. -/
def withDigits? (m : Nat) (e : Int) (count : Nat) : Option Decimal :=
  let num := m * Nat.pow 2 e.toNat * Nat.pow 10 places
  let den := Nat.pow 2 (-e).toNat
  let size := (Nat.toDigits 10 (num / den)).length
  let unit := Nat.pow 10 (size - count)
  let exponent : Int := (size - count : Nat) - places
  let below := num / den / unit
  let readsBack (digits : Nat) : Bool := ofDecimal false digits exponent == .finite false m e
  match readsBack below, readsBack (below + 1) with
  | false, false => none
  | true, false => some ⟨below, exponent⟩
  | false, true => some ⟨below + 1, exponent⟩
  | true, true => some ⟨roundDiv num (den * unit), exponent⟩

/-- The number `m * 2 ^ e` itself as a decimal. -/
def toDecimal (m : Nat) (e : Int) : Decimal :=
  ⟨m * Nat.pow 2 e.toNat * Nat.pow 5 (-e).toNat, min e 0⟩

/-- The shortest decimal that reads back as `m * 2 ^ e`. -/
def shortest (m : Nat) (e : Int) : Decimal :=
  ((List.range' 1 17).findSome? (withDigits? m e)).getD (toDecimal m e)

def sign (negative : Bool) (cs : List Char) : List Char := if negative then '-' :: cs else cs

/-- The text of a number, and the names of what has no digits. -/
def shown : Binary64 → String
  | nan => "nan"
  | infinite negative => String.ofList (sign negative ['i', 'n', 'f'])
  | finite negative m e =>
    String.ofList (sign negative (if m = 0 then ['0', '.', '0'] else (shortest m e).write))

end Binary64

end FullText
