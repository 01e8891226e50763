/-! Binary floating-point numbers of 64 bits.

A finite number is a whole mantissa below 2⁵³ times a power of two not below 2⁻¹⁰⁷⁴; the
mantissa is at least 2⁵² unless the exponent is the lowest one. A decimal is read as the
nearest such number, of two equally near the one with the even mantissa, and one too large
for any of them as an infinity. -/
namespace BnfReader

/-- A floating-point number. -/
inductive Binary64 where
  /-- `mantissa · 2 ^ exponent`, negated if so marked. -/
  | finite (negative : Bool) (mantissa : Nat) (exponent : Int)
  | infinite (negative : Bool)
  | nan
deriving DecidableEq

namespace Binary64

/-- The lowest exponent. -/
def minExponent : Int := -1074

/-- The highest exponent. -/
def maxExponent : Int := 971

/-- The leading bit of a mantissa above the lowest exponent, 2⁵². -/
def leadingBit : Nat := 4503599627370496

/-- The quotient rounded to the nearest whole number, a half to the even neighbour. -/
def roundDiv (num den : Nat) : Nat :=
  let q := num / den
  let twice := 2 * (num % den)
  if twice < den then q
  else if den < twice then q + 1
  else if q % 2 = 0 then q else q + 1

/-- A fraction times a power of two, as numerator and denominator. -/
def scale (num den : Nat) (exponent : Int) : Nat × Nat :=
  if 0 ≤ exponent then (num * Nat.pow 2 exponent.toNat, den)
  else (num, den * Nat.pow 2 (-exponent).toNat)

/-- The exponent of the highest power of two not above a positive fraction. -/
def log2Ratio (num den : Nat) : Int :=
  let guess : Int := (Nat.log2 num : Int) - (Nat.log2 den : Int)
  let (n, d) := scale num den (-guess)
  if d ≤ n then guess else guess - 1

/-- The number nearest to a fraction. -/
def ofRatio (negative : Bool) (num den : Nat) : Binary64 :=
  if num = 0 then .finite negative 0 minExponent
  else
    let exponent := max (log2Ratio num den - 52) minExponent
    let (n, d) := scale num den (-exponent)
    let mantissa := roundDiv n d
    let (mantissa, exponent) :=
      if mantissa = 2 * leadingBit then (leadingBit, exponent + 1) else (mantissa, exponent)
    if maxExponent < exponent then .infinite negative else .finite negative mantissa exponent

/-- The number of decimal digits of a number. -/
def digitCount (n : Nat) : Nat := (Nat.toDigits 10 n).length

/-- The number nearest to `digits · 10 ^ exponent`. Decimals far beyond the range are
settled by their size alone. -/
def ofDecimal (negative : Bool) (digits : Nat) (exponent : Int) : Binary64 :=
  let magnitude := (digitCount digits : Int) + exponent
  if digits = 0 ∨ magnitude < -330 then .finite negative 0 minExponent
  else if 310 < magnitude then .infinite negative
  else if 0 ≤ exponent then ofRatio negative (digits * Nat.pow 10 exponent.toNat) 1
  else ofRatio negative digits (Nat.pow 10 (-exponent).toNat)

/-- The whole part of a finite number; infinities and the undefined number have none. -/
def truncate? : Binary64 → Option Int
  | .finite negative mantissa exponent =>
    let (n, d) := scale mantissa 1 exponent
    let whole : Int := (n / d : Nat)
    some (if negative then -whole else whole)
  | _ => none

/-- The lowest whole number not below a finite number. -/
def ceiling? : Binary64 → Option Int
  | .finite negative mantissa exponent =>
    let (n, d) := scale mantissa 1 exponent
    some (if negative then -((n / d : Nat) : Int) else ((n + d - 1) / d : Nat))
  | _ => none

end Binary64
end BnfReader
