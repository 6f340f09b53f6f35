import Calculator.Decimal.Basic

/-!
# Shortest decimals

The shortest decimal of a magnitude is sought on the grids of the multiples of 10 ^ e, from a grid coarser
than the magnitude down to that of 10 ^ -1074, on which every magnitude lies. On each grid only the two
neighbours of the magnitude can be its nearest multiples; the first grid with a neighbour that reads back
gives the answer, the nearer neighbour is preferred, and of two equally near ones the upper.

Main statements: the shortest decimal reads back (`round_shortest`).
-/

namespace Calculator.Decimal

open Binary64 (unitPlaces unitsPerOne)

/-- The magnitude as a multiple of 10 ^ -1074, which it always is. -/
def fineDigits (m : Magnitude) : Nat :=
  m.units * 5 ^ unitPlaces

/-- The multiple of `10 ^ k` on the finest grid, as a decimal. -/
def onGrid (digits k : Nat) : Decimal :=
  ⟨digits, (k : Int) - unitPlaces⟩

/-- Whether reading the decimal gives the magnitude. -/
def readsAs (d : Decimal) (m : Magnitude) : Bool :=
  decide (d.round .plus = .finite .plus m)

/-- The two neighbours of the magnitude on a grid, the nearer first. -/
def neighbours (m : Magnitude) (k : Nat) : List Decimal :=
  let below := fineDigits m / 10 ^ k
  let beyond := fineDigits m % 10 ^ k
  if 2 * beyond < 10 ^ k then [onGrid below k, onGrid (below + 1) k]
  else [onGrid (below + 1) k, onGrid below k]

/-- The first decimal that reads back, on the grids from the `k`-th downward. -/
def shortestFrom (m : Magnitude) : Nat → Decimal
  | 0 => onGrid (fineDigits m) 0
  | k + 1 => ((neighbours m (k + 1)).find? (readsAs · m)).getD (shortestFrom m k)

/-- A grid coarser than the magnitude: ten to the 28th exceeds two to the 93rd. -/
def coarsest (m : Magnitude) : Nat :=
  ((fineDigits m).log2 + 1) * 28 / 93 + 1

/-- The decimal with the fewest digits that reads back, nearest to the magnitude; zero has one digit. -/
def shortest (m : Magnitude) : Decimal :=
  if m.units = 0 then ⟨0, 0⟩ else shortestFrom m (coarsest m)

/-- Ten to the finest exponent is five to it times the units that make one. -/
theorem ten_pow_unitPlaces : 10 ^ unitPlaces = 5 ^ unitPlaces * unitsPerOne := by
  have split (k : Nat) : 10 ^ k = 5 ^ k * 2 ^ k := by rw [← Nat.mul_pow]
  exact split unitPlaces

/-- The fine digits of a nonzero magnitude are long enough for the finest exponent to be within reach. -/
theorem le_log2_fineDigits {m : Magnitude} (pos : m.units ≠ 0) :
    2 * unitPlaces ≤ (fineDigits m).log2 := by
  have long (k : Nat) : 2 * k ≤ (m.units * 5 ^ k).log2 := by
    have four : 4 ^ k ≤ 5 ^ k := Nat.pow_le_pow_left (by decide) k
    have five : 0 < 5 ^ k := Nat.pow_pos (by decide)
    have once : 5 ^ k ≤ m.units * 5 ^ k := Nat.le_mul_of_pos_left _ (by omega)
    rw [Nat.le_log2 (by omega), Nat.pow_mul]
    exact Nat.le_trans four once
  exact long unitPlaces

/-- The finest multiple of ten reads back as the magnitude. -/
theorem readsAs_onGrid_fineDigits {m : Magnitude} (pos : m.units ≠ 0) :
    (onGrid (fineDigits m) 0).readsAs m = true := by
  have log := le_log2_fineDigits pos
  have scaled : fineDigits m * unitsPerOne = m.units * 10 ^ unitPlaces := by
    rw [ten_pow_unitPlaces, fineDigits, Nat.mul_assoc]
  have ten : 0 < 10 ^ unitPlaces := Nat.pow_pos (by decide)
  have rounded := Binary64.ofUnits_mul_self .plus m ten
  rw [← scaled] at rounded
  have places := Binary64.unitPlaces_eq
  have nonzero : fineDigits m ≠ 0 := by
    intro zero
    rw [zero, places] at log
    exact absurd log (by decide)
  have near : -((fineDigits m).log2 + reach) ≤ (onGrid (fineDigits m) 0).exponent := by
    simp only [onGrid, reach]; omega
  have neg : (onGrid (fineDigits m) 0).exponent < 0 := by
    simp only [onGrid]; omega
  have power : (-(onGrid (fineDigits m) 0).exponent).toNat = unitPlaces := by
    simp only [onGrid]; omega
  have quotient := round_of_neg .plus (d := onGrid (fineDigits m) 0) nonzero near neg
  rw [power] at quotient
  have same : (onGrid (fineDigits m) 0).round .plus = .finite .plus m := quotient.trans rounded
  simp [readsAs, same]

/-- Whatever grid the search starts on, its answer reads back. -/
theorem readsAs_shortestFrom {m : Magnitude} (pos : m.units ≠ 0) (k : Nat) :
    (shortestFrom m k).readsAs m = true := by
  induction k with
  | zero => exact readsAs_onGrid_fineDigits pos
  | succ k ih =>
    rw [shortestFrom]
    cases found : (neighbours m (k + 1)).find? (readsAs · m) with
    | none => exact ih
    | some d =>
      have reads := List.find?_some found
      exact reads

/-- Reading the shortest decimal gives the magnitude back. -/
theorem round_shortest (m : Magnitude) : (shortest m).round .plus = .finite .plus m := by
  by_cases zero : m.units = 0
  · have same := Binary64.ofUnits_self .plus m
    rw [zero] at same
    rw [shortest, if_pos zero, round, if_pos (Or.inl rfl)]
    exact same
  · rw [shortest, if_neg zero]
    exact of_decide_eq_true (readsAs_shortestFrom zero (coarsest m))

end Calculator.Decimal
