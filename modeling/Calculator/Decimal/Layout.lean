import Calculator.Text
import Calculator.Decimal.Shortest

/-!
# Writing numbers

A decimal is written positionally, all its places spelt out, or in scientific form, one digit before the
point and a signed exponent. Tokens and trees write a number positionally whatever its size. A result is
written positionally when its leading digit stands for a power of ten between 10 ^ -4 and 10 ^ 15, and in
scientific form otherwise; a result of either zero is written without a sign.
-/

namespace Calculator

/-- The decimal digits of a natural number. -/
def digitsText (n : Nat) : Text :=
  Nat.toDigits 10 n

namespace Decimal

/-- The decimal in positional form. -/
def positional (d : Decimal) : Text :=
  if 0 ≤ d.exponent then
    digitsText d.digits ++ List.replicate d.exponent.toNat '0'
  else
    let places := (-d.exponent).toNat
    let digits := digitsText d.digits
    let padded := List.replicate (places + 1 - digits.length) '0' ++ digits
    padded.take (padded.length - places) ++ '.' :: padded.drop (padded.length - places)

/-- The power of ten that the leading digit stands for. -/
def leadingExponent (d : Decimal) : Int :=
  d.exponent + ((digitsText d.digits).length - 1 : Nat)

/-- An integer with its sign always written. -/
def exponentText (e : Int) : Text :=
  (Sign.ofInt e).symbol :: digitsText e.natAbs

/-- The decimal in scientific form. -/
def scientific (d : Decimal) : Text :=
  let digits := digitsText d.digits
  let fraction := digits.drop 1
  digits.take 1 ++ (if fraction.isEmpty then [] else '.' :: fraction) ++
    'e' :: exponentText d.leadingExponent

/-- The least power of ten that the leading digit of a positional result may stand for. -/
def leastPositional : Int :=
  -4

/-- The greatest power of ten that the leading digit of a positional result may stand for. -/
def greatestPositional : Int :=
  15

/-- The decimal as a result shows it. -/
def resultText (d : Decimal) : Text :=
  if leastPositional ≤ d.leadingExponent ∧ d.leadingExponent ≤ greatestPositional then d.positional
  else d.scientific

end Decimal

/-- The text with a minus in front when the sign is minus. -/
def Sign.put (s : Sign) (text : Text) : Text :=
  match s with
  | plus => text
  | minus => '-' :: text

namespace Binary64

/-- The text of a number in tokens and trees: its shortest digits, never with an exponent. -/
def text : Binary64 → Text
  | nan => ['N', 'a', 'N']
  | infinite s => s.put ['i', 'n', 'f']
  | finite s m => s.put (Decimal.shortest m).positional

/-- The text of a number shown as a result. -/
def resultText : Binary64 → Text
  | nan => ['n', 'a', 'n']
  | infinite s => s.put ['i', 'n', 'f']
  | finite s m =>
    if m.units = 0 then ['0'] else s.put (Decimal.shortest m).resultText

/-! Results at the two thresholds, the least magnitude, and the zero that tokens and results write apart. -/

example : (Decimal.round .plus ⟨9999999999999998, 0⟩).resultText = "9999999999999998".toList := by
  decide +kernel

example : (Decimal.round .plus ⟨1, 16⟩).resultText = "1e+16".toList := by
  decide +kernel

example : (Decimal.round .minus ⟨1, -4⟩).resultText = "-0.0001".toList := by
  decide +kernel

example : (Decimal.round .plus ⟨125, -7⟩).resultText = "1.25e-5".toList := by
  decide +kernel

example : (Decimal.round .plus ⟨5, -324⟩).resultText = "5e-324".toList := by
  decide +kernel

example : (zero .minus).resultText = "0".toList ∧ (zero .minus).text = "-0".toList := by
  decide +kernel

end Binary64

end Calculator
