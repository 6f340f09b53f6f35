import Calculator.Binary64.Basic

/-!
# Decimals

A decimal is a natural number of digits scaled by a power of ten. `Decimal.round` is the binary64 number
nearest to it, a tie going to the even one. A decimal too great or too small to matter is settled by its
exponent alone, so that no power of ten larger than the digits warrant is ever formed.
-/

namespace Calculator

/-- The number `digits * 10 ^ exponent`. -/
structure Decimal where
  digits : Nat
  exponent : Int
deriving DecidableEq

namespace Decimal

/-- An exponent beyond which a nonzero decimal is infinite, and below which, less the binary length of the
digits, it is zero. -/
def reach : Int :=
  400

/-- The number with the given sign that is nearest to the decimal. -/
def round (sign : Sign) (d : Decimal) : Binary64 :=
  if d.digits = 0 ∨ d.exponent < -(d.digits.log2 + reach) then .zero sign
  else if reach < d.exponent then .infinite sign
  else if 0 ≤ d.exponent then
    .ofUnits sign (d.digits * 10 ^ d.exponent.toNat * Binary64.unitsPerOne) 1
  else .ofUnits sign (d.digits * Binary64.unitsPerOne) (10 ^ (-d.exponent).toNat)

/-- A decimal within reach that has decimal places is rounded as a quotient by a power of ten. -/
theorem round_of_neg (sign : Sign) {d : Decimal} (nonzero : d.digits ≠ 0)
    (near : -(d.digits.log2 + reach) ≤ d.exponent) (neg : d.exponent < 0) :
    d.round sign = .ofUnits sign (d.digits * Binary64.unitsPerOne) (10 ^ (-d.exponent).toNat) := by
  have small : ¬(reach < d.exponent) := by unfold reach; omega
  unfold round
  rw [if_neg (by omega), if_neg small, if_neg (by omega)]

/-- A decimal within reach that has no decimal places is rounded as a product by a power of ten. -/
theorem round_of_nonneg (sign : Sign) {d : Decimal} (nonzero : d.digits ≠ 0) (nonneg : 0 ≤ d.exponent)
    (near : d.exponent ≤ reach) :
    d.round sign = .ofUnits sign (d.digits * 10 ^ d.exponent.toNat * Binary64.unitsPerOne) 1 := by
  have large : ¬(d.exponent < -(d.digits.log2 + reach)) := by unfold reach; omega
  unfold round
  rw [if_neg (by omega), if_neg (by omega), if_pos nonneg]

/-- Digits and power of ten may be multiplied out when the exponent is within reach. -/
theorem round_mul_pow (sign : Sign) (n : Nat) {e : Nat} (near : e ≤ 400) :
    round sign ⟨n * 10 ^ e, 0⟩ = round sign ⟨n, e⟩ := by
  by_cases zero : n = 0
  · simp [round, zero]
  · have pos : 0 < 10 ^ e := Nat.pow_pos (by decide)
    have scaled : n * 10 ^ e ≠ 0 := Nat.mul_ne_zero zero (by omega)
    have within : (e : Int) ≤ reach := by unfold reach; omega
    rw [round_of_nonneg sign (d := ⟨n * 10 ^ e, 0⟩) scaled (Int.le_refl 0)
        (show (0 : Int) ≤ reach from by decide),
      round_of_nonneg sign (d := ⟨n, e⟩) zero (Int.natCast_nonneg e) within]
    simp

end Decimal

end Calculator
