import Calculator.Binary64.Basic

/-!
# Powers

The power of a positive magnitude is two to the exponent times the binary logarithm of the base. Both
logarithm and exponential are computed in fixed point with 320 binary places, the mantissa of the result is
taken to the nearest multiple of 2 ^ -200, which makes an exact or half-way result exact again, and the
result is rounded to binary64 once. Signs, zeros, infinities and the value that is not a number follow the
rules for real powers: anything to the power zero is one, one to any power is one, a negative base needs an
integral exponent, and an odd one keeps the sign.

How precise powers are is left open by the platform, which may give a neighbour of this number, as for 5.2 to the power
of 9.6. No theorem depends on what `pow` gives, but for runs on fixed inputs.
-/

namespace Calculator.Binary64

/-- Whether a finite magnitude is an integer. -/
def isIntegral (m : Magnitude) : Bool :=
  decide (m.units % unitsPerOne = 0)

/-- Whether a finite magnitude is an odd integer. -/
def isOddIntegral (m : Magnitude) : Bool :=
  isIntegral m && decide (m.units / unitsPerOne % 2 = 1)

/-- Whether the number is an odd integer. -/
def isOdd : Binary64 → Bool
  | finite _ m => isOddIntegral m
  | _ => false

namespace Power

/-- The number of binary places of the fixed point. -/
def places : Nat :=
  320

/-- The number of binary places that the mantissa of the result keeps. -/
def mantissaPlaces : Nat :=
  200

/-- One, in fixed point. -/
def scale : Nat :=
  2 ^ places

/-- The number of terms of the logarithm's series; each brings more than three bits. -/
def logTerms : Nat :=
  110

/-- The number of terms of the exponential's series. -/
def expTerms : Nat :=
  80

/-- The natural logarithm of `num / den`, between one and two: twice the series
`z + z ^ 3 / 3 + z ^ 5 / 5 + …` at `z = (num - den) / (num + den)`. -/
def logRatio (num den : Nat) : Nat :=
  let z := (num - den) * scale / (num + den)
  let square := z * z / scale
  let series := (List.range logTerms).foldr
    (fun k rest => scale / (2 * k + 1) + square * rest / scale) 0
  2 * z * series / scale

/-- The natural logarithm of two. -/
def logTwo : Nat :=
  logRatio 2 1

/-- The binary logarithm of a positive number of units, as a fixed-point number. -/
def binaryLog (units : Nat) : Int :=
  let exponent := units.log2
  ((exponent : Int) - unitPlaces) * scale + logRatio units (2 ^ exponent) * scale / logTwo

/-- Two to the power of a fixed-point fraction: the series `1 + x + x ^ 2 / 2 + …` at the fraction times
the logarithm of two. -/
def twoPow (fraction : Nat) : Nat :=
  let x := fraction * logTwo / scale
  (List.range expTerms).foldr (fun k rest => scale + x * rest / ((k + 1) * scale)) scale

/-- The number with the given sign whose magnitude is two to a fixed-point exponent. -/
def ofExponent (sign : Sign) (exponent : Int) : Binary64 :=
  let whole := exponent / scale
  let mantissa := nearest (twoPow (exponent % scale).toNat) (2 ^ (places - mantissaPlaces))
  let shift := whole + unitPlaces - mantissaPlaces
  if 1025 ≤ whole then infinite sign
  else if whole < -1080 then zero sign
  else if 0 ≤ shift then ofUnits sign (mantissa * 2 ^ shift.toNat) 1
  else ofUnits sign mantissa (2 ^ (-shift).toNat)

/-- The power of a positive magnitude to a signed magnitude. -/
def ofMagnitudes (sign : Sign) (base : Magnitude) (exponentSign : Sign) (exponent : Magnitude) :
    Binary64 :=
  ofExponent sign (binaryLog base.units * exponentSign.apply exponent.units / unitsPerOne)

end Power

/-- The power of `x` to `y`. -/
def pow (x y : Binary64) : Binary64 :=
  let sign := if x.sign = .minus ∧ y.isOdd then Sign.minus else Sign.plus
  if y.isZero ∨ x = one then one
  else match x, y with
    | nan, _ => nan
    | _, nan => nan
    | infinite _, y => if y.isNegative then zero sign else infinite sign
    | finite _ m, infinite t =>
      if m.units = unitsPerOne then one
      else if m.units < unitsPerOne ↔ t = .plus then zero .plus
      else infinite .plus
    | finite s m, finite t n =>
      if m.units = 0 then (if t = .minus then infinite sign else zero sign)
      else if s = .minus ∧ isIntegral n = false then nan
      else Power.ofMagnitudes sign m t n

end Calculator.Binary64
