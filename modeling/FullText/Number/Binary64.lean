/-!
# Numbers of 53 binary digits

A number is a whole number of at most 53 binary digits times a power of two, an infinity, or no
number at all. A decimal is read as the nearest of these numbers, and a decimal half way between two
as the one whose last binary digit is zero.
-/

namespace FullText

inductive Binary64 where
  | nan
  | infinite (negative : Bool)
  /-- The number `mantissa * 2 ^ exponent`, or its negation. Zero comes with either sign. -/
  | finite (negative : Bool) (mantissa : Nat) (exponent : Int)
  deriving DecidableEq, Repr

namespace Binary64

/-- The least power of two, which is that of zero too. -/
def minExponent : Int := -1074

def maxExponent : Int := 971

def zero (negative : Bool) : Binary64 := .finite negative 0 minExponent

/-- The quotient as the nearest whole number, and as the even one of two that are equally near. -/
def roundDiv (num den : Nat) : Nat :=
  if 2 * (num % den) < den then num / den
  else if den < 2 * (num % den) then num / den + 1
  else num / den + num / den % 2

/-- The quotient in units of `2 ^ exponent`, as a numerator and a denominator. -/
def inUnits (num den : Nat) (exponent : Int) : Nat × Nat :=
  (num * Nat.pow 2 (-exponent).toNat, den * Nat.pow 2 exponent.toNat)

/-- The power of two in whose units the whole part of the quotient has 53 binary digits, or the
least power. -/
def exponentOf (num den : Nat) : Int :=
  let guess : Int := num.log2 - den.log2 - 53
  let (n, d) := inUnits num den guess
  max minExponent (if n / d < Nat.pow 2 53 then guess else guess + 1)

/-- The nearest number to a quotient. -/
def ofRatio (negative : Bool) (num den : Nat) : Binary64 :=
  let exponent := exponentOf num den
  let (n, d) := inUnits num den exponent
  let mantissa := roundDiv n d
  if mantissa = 0 then zero negative
  else
    -- Rounding up may lead to a 54th digit, which is then the only one.
    let (m, e) :=
      if mantissa = Nat.pow 2 53 then (Nat.pow 2 52, exponent + 1) else (mantissa, exponent)
    if maxExponent < e then .infinite negative else .finite negative m e

/-- The nearest number to `digits * 10 ^ exponent`. -/
def ofDecimal (negative : Bool) (digits : Nat) (exponent : Int) : Binary64 :=
  -- The decimal is below the power of ten `size`, and not below the one before it.
  let size : Int := (Nat.toDigits 10 digits).length + exponent
  if digits = 0 ∨ size < -330 then zero negative
  else if 310 < size then .infinite negative
  else ofRatio negative (digits * Nat.pow 10 exponent.toNat) (Nat.pow 10 (-exponent).toNat)

/-- A finite number as a mantissa with a sign and a power of two. -/
def parts? : Binary64 → Option (Int × Int)
  | .finite negative m e => some (if negative then -m else m, e)
  | _ => none

end Binary64

end FullText
