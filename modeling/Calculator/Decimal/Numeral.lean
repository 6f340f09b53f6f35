import Calculator.Text
import Calculator.Decimal.Basic

/-!
# Reading numerals

A numeral is a run of digits with an optional point, at least one digit in all, and an optional exponent:
`e` or `E`, an optional sign and at least one digit. Its value is the nearest binary64 number; a numeral
that is too great reads as infinity, one that is too small as zero.
-/

namespace Calculator

namespace Decimal

/-- The natural number that a text of digits writes. -/
def natural? (text : Text) : Option Nat :=
  if text.isEmpty then none
  else if text.all Char.isDigit then some (Nat.ofDigitChars 10 text 0)
  else none

/-- The integer that a text writes, its sign optional. -/
def integer? : Text → Option Int
  | '+' :: digits => (natural? digits).map Int.ofNat
  | '-' :: digits => (natural? digits).map fun n => -Int.ofNat n
  | digits => (natural? digits).map Int.ofNat

/-- The exponent that ends a numeral; nothing stands for zero. -/
def exponent? : Text → Option Int
  | [] => some 0
  | mark :: text => if mark = 'e' ∨ mark = 'E' then integer? text else none

/-- The digits after the point, when a text starts with one. -/
def places : Text → Text
  | '.' :: text => text.takeWhile Char.isDigit
  | _ => []

/-- What follows the point and its digits, when a text starts with one. -/
def afterPlaces : Text → Text
  | '.' :: text => text.dropWhile Char.isDigit
  | text => text

/-- The decimal that a numeral writes. -/
def ofNumeral? (text : Text) : Option Decimal :=
  let rest := text.dropWhile Char.isDigit
  let digits := text.takeWhile Char.isDigit ++ places rest
  if digits.isEmpty then none
  else (exponent? (afterPlaces rest)).map fun exponent =>
    ⟨Nat.ofDigitChars 10 digits 0, exponent - (places rest).length⟩

end Decimal

/-- The number that an unsigned numeral writes. -/
def Binary64.ofNumeral? (text : Text) : Option Binary64 :=
  (Decimal.ofNumeral? text).map (Decimal.round .plus)

end Calculator
