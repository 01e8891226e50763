import BnfReader.Number.Binary64

/-! The shortest decimal that reads back as a given floating-point number.

A decimal reads back as the number exactly when it lies between the midpoints to the two
neighbouring numbers, the midpoints included when the mantissa is even. For one, two and up
to seventeen digits the two decimals of that length around the number are tried, and the
first length with a decimal inside wins; of two inside, the nearer. -/
namespace BnfReader.Binary64

/-- `digits · 10 ^ exponent`. -/
structure Decimal where
  digits : Nat
  exponent : Int
deriving DecidableEq

/-- The reals that read back as one number, in fourths of its last binary place: from
`low / den` to `high / den` around `mid / den`. -/
structure Cell where
  low : Nat
  mid : Nat
  high : Nat
  den : Nat
  /-- Whether the ends belong to the cell. -/
  closed : Bool

/-- The cell of a positive number. Below a power of two the neighbour is half as far. -/
def cell (mantissa : Nat) (exponent : Int) : Cell :=
  let below := if mantissa = leadingBit ∧ minExponent < exponent then 1 else 2
  let (unit, den) := scale 1 1 (exponent - 2)
  { low := (4 * mantissa - below) * unit
    mid := 4 * mantissa * unit
    high := (4 * mantissa + 2) * unit
    den
    closed := mantissa % 2 = 0 }

/-- A fraction times a power of ten, as numerator and denominator. -/
def scaleTen (num den : Nat) (exponent : Int) : Nat × Nat :=
  if 0 ≤ exponent then (num * Nat.pow 10 exponent.toNat, den)
  else (num, den * Nat.pow 10 (-exponent).toNat)

/-- Whether a decimal lies in a cell. -/
def Cell.contains (c : Cell) (d : Decimal) : Bool :=
  let (n, m) := scaleTen (d.digits * c.den) 1 d.exponent
  if c.closed then c.low * m ≤ n && n ≤ c.high * m else c.low * m < n && n < c.high * m

/-- The exponent of the highest power of ten not above a positive fraction. -/
def log10Ratio (num den : Nat) : Int :=
  if den ≤ num then (digitCount (num / den) : Int) - 1
  else -(digitCount ((den + num - 1) / num - 1) : Int)

/-- The decimal of `count` digits in the cell that is nearest to its middle, if there is one. -/
def Cell.nearest? (c : Cell) (count : Nat) : Option Decimal :=
  let exponent := log10Ratio c.mid c.den - count + 1
  let (n, m) := scaleTen c.mid c.den (-exponent)
  let below : Decimal := ⟨n / m, exponent⟩
  let above : Decimal := ⟨n / m + 1, exponent⟩
  match c.contains below, c.contains above with
  | true, true =>
    let rest := 2 * (n % m)
    if rest < m ∨ (rest = m ∧ below.digits % 2 = 0) then some below else some above
  | true, false => some below
  | false, true => some above
  | false, false => none

/-- A decimal without zeros at its end; `fuel` bounds their number. -/
def Decimal.strip : Nat → Decimal → Decimal
  | 0, d => d
  | fuel + 1, d => if d.digits % 10 = 0 ∧ d.digits ≠ 0
      then strip fuel ⟨d.digits / 10, d.exponent + 1⟩ else d

/-- The shortest decimal of a positive number. -/
def shortest (mantissa : Nat) (exponent : Int) : Decimal :=
  let c := cell mantissa exponent
  match (List.range' 1 17).findSome? c.nearest? with
  | some d => d.strip 18
  | none => ⟨0, 0⟩

/-! ### The written form -/

/-- How numbers are written: with a decimal point, and at least one digit behind it, when the
exponent of the leading digit is between -4 and 15; else with an exponent of two digits or
more, always signed. -/
def Decimal.write (d : Decimal) : String :=
  let ds := Nat.toDigits 10 d.digits
  let point := (ds.length : Int) + d.exponent
  if -3 ≤ point ∧ point ≤ 16 then
    let whole := if point ≤ 0 then ['0']
      else ds.take point.toNat ++ List.replicate (point.toNat - ds.length) '0'
    let part := List.replicate (-point).toNat '0' ++ ds.drop point.toNat
    String.ofList (whole ++ '.' :: if part.isEmpty then ['0'] else part)
  else
    let e := point - 1
    let shown := Nat.toDigits 10 e.natAbs
    String.ofList (ds.take 1 ++ (if ds.length = 1 then [] else '.' :: ds.drop 1) ++
      'e' :: (if e < 0 then '-' else '+') :: (if shown.length = 1 then '0' :: shown else shown))

/-- A number as text, with given words for the infinity and the undefined number. -/
def write (infinity undefined : String) : Binary64 → String
  | .finite negative mantissa exponent =>
    (if negative then "-" else "") ++
      if mantissa = 0 then "0.0" else (shortest mantissa exponent).write
  | .infinite negative => (if negative then "-" else "") ++ infinity
  | .nan => undefined

end BnfReader.Binary64
