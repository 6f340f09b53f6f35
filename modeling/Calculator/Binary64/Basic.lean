import Calculator.Sign
import Calculator.Binary64.Rounding

/-!
# Binary64 numbers

A binary64 number is not a number, an infinity, or a sign with a finite magnitude. A magnitude counts units
of 2 ^ -1074, holds at most 53 significant bits, and stays below 2 ^ 2098 units, which is 2 ^ 1024. Zero has
two signs. `Binary64.ofUnits` rounds an exact quotient of units to the nearest number, and every operation
that is not exact is defined through it.

Main statements: `ofUnits` returns a representable quotient as it is (`ofUnits_mul_self`).
-/

namespace Calculator

namespace Binary64

/-- The unit is two to the power of minus this number. It is kept folded, so that no proof expands the
powers with this exponent. -/
@[irreducible] def unitPlaces : Nat :=
  1074

/-- There are 1074 binary places. -/
theorem unitPlaces_eq : unitPlaces = 1074 := by
  unfold unitPlaces; rfl

/-- The number of units that make one. -/
def unitsPerOne : Nat :=
  2 ^ unitPlaces

/-- The number of units at which a rounded magnitude becomes infinite: those of 2 ^ 1024. -/
def overflowUnits : Nat :=
  2 ^ (1024 + unitPlaces)

end Binary64

/-- A finite magnitude, in units of 2 ^ -1074. -/
structure Magnitude where
  units : Nat
  representable : Binary64.Representable units
  bounded : units < Binary64.overflowUnits
deriving DecidableEq

/-- A binary64 number; the payload of the value that is not a number is not kept. -/
inductive Binary64 where
  | nan
  | infinite (sign : Sign)
  | finite (sign : Sign) (magnitude : Magnitude)
deriving DecidableEq

namespace Binary64

/-- The number nearest to `num / den` units with the given sign, a tie going to the even magnitude. -/
def ofUnits (sign : Sign) (num den : Nat) : Binary64 :=
  if h : roundUnits num den < overflowUnits then
    finite sign ⟨roundUnits num den, representable_roundUnits num den, h⟩
  else
    infinite sign

/-- Zero with the given sign. -/
def zero (sign : Sign) : Binary64 :=
  ofUnits sign 0 1

/-- The number one. -/
def one : Binary64 :=
  ofUnits .plus unitsPerOne 1

/-- The number one half. -/
def half : Binary64 :=
  ofUnits .plus unitsPerOne 2

/-- The sign; the value that is not a number counts as positive. -/
def sign : Binary64 → Sign
  | nan => .plus
  | infinite s => s
  | finite s _ => s

/-- Whether the number is a zero of either sign. -/
def isZero : Binary64 → Bool
  | finite _ m => decide (m.units = 0)
  | _ => false

/-- Whether the number is neither infinite nor not a number. -/
def isFinite : Binary64 → Bool
  | finite _ _ => true
  | _ => false

/-- The numerical order; it never holds of the value that is not a number, nor between the two zeros. -/
def lt : Binary64 → Binary64 → Bool
  | nan, _ => false
  | _, nan => false
  | infinite s, infinite t => decide (s = .minus ∧ t = .plus)
  | infinite s, finite _ _ => decide (s = .minus)
  | finite _ _, infinite t => decide (t = .plus)
  | finite s m, finite t n => decide (s.apply m.units < t.apply n.units)

/-- Whether the number is below zero. -/
def isNegative (v : Binary64) : Bool :=
  v.lt (zero .plus)

/-- Rounding gives a representable magnitude back. -/
theorem ofUnits_mul_self (sign : Sign) (m : Magnitude) {den : Nat} (pos : 0 < den) :
    ofUnits sign (m.units * den) den = finite sign m := by
  have same := roundUnits_mul_self pos m.representable
  have bound : roundUnits (m.units * den) den < overflowUnits := by
    rw [same]; exact m.bounded
  obtain ⟨units, fits, small⟩ := m
  simp only at same
  simp [ofUnits, same, small]

/-- Rounding a whole number of units gives a representable magnitude back. -/
theorem ofUnits_self (sign : Sign) (m : Magnitude) : ofUnits sign m.units 1 = finite sign m := by
  have scaled := ofUnits_mul_self sign m Nat.one_pos
  rwa [Nat.mul_one] at scaled

end Binary64

end Calculator
