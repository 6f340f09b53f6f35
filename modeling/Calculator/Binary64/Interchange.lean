import Calculator.Binary64.Basic

/-!
# The binary64 interchange format

A binary64 number is exchanged as a word of 64 bits: the sign, eleven bits of exponent and 52 bits of
fraction. The exponent 0 stands for the magnitudes below 2 ^ 52 units, the exponent 2047 for the infinities
and the values that are not numbers.
-/

namespace Calculator

namespace Binary64

/-- The number of bits of the exponent field. -/
def exponentBits : Nat :=
  11

/-- The exponent field of the infinities and of the values that are not numbers. -/
def specialExponent : Nat :=
  2047

end Binary64

open Binary64

/-- The exponent and fraction fields of a magnitude; the leading bit of the mantissa adds one to the
exponent. -/
def Magnitude.fields (m : Magnitude) : Nat :=
  if m.units < 2 ^ fractionBits then m.units
  else (m.units.log2 - fractionBits) * 2 ^ fractionBits + m.units / spacing m.units

namespace Binary64

/-- The number that a word stands for. -/
def ofBits (word : UInt64) : Binary64 :=
  let bits := word.toNat
  let sign := if bits / 2 ^ (exponentBits + fractionBits) = 0 then Sign.plus else Sign.minus
  let exponent := bits / 2 ^ fractionBits % 2 ^ exponentBits
  let fraction := bits % 2 ^ fractionBits
  if exponent = specialExponent then
    if fraction = 0 then infinite sign else nan
  else if exponent = 0 then ofUnits sign fraction 1
  else ofUnits sign ((2 ^ fractionBits + fraction) * 2 ^ (exponent - 1)) 1

/-- The word that stands for a number; a value that is not a number has the quiet fraction. -/
def toBits : Binary64 → UInt64
  | nan => word .plus (specialExponent * 2 ^ fractionBits + 2 ^ (fractionBits - 1))
  | infinite s => word s (specialExponent * 2 ^ fractionBits)
  | finite s m => word s m.fields
where
  /-- The word with the given sign bit above the other fields. -/
  word (s : Sign) (fields : Nat) : UInt64 :=
    UInt64.ofNat ((if s = .minus then 2 ^ (exponentBits + fractionBits) else 0) + fields)

end Binary64

end Calculator
