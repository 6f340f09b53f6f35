import Calculator.Proofs.Binary64.IntegerDivision
import Calculator.Proofs.Binary64.Error

/-!
# Floor division of all numbers

What the exact remainder leaves of the dividend is the truncated quotient times the divisor. Rounding the difference
changes it by its 2 ^ 53rd part at most, which is an eighth of the divisor for quotients up to 2 ^ 50; rounding the
quotient and, for opposite signs, the step down adds an eighth each. So the quotient is off the floored one by three
eighths at most (`rawQuotient_isWithin`). Its fraction then lies an eighth off one half on either side, more than the
rounding of the fraction changes it by, and the test against one half finds the integer (`settle_hasValue`). Main
statement: the floored quotient is exact up to 2 ^ 50 (`floorDiv_hasValue_floor`).
-/

namespace Calculator.Binary64

variable {a b v : Binary64} {m n k : ℤ} {q : ℚ}

/-! ## The nearest integer -/

/-- A number off an integer by three eighths at most is moved to it. -/
lemma settle_hasValue (value : v.HasValue q) (close : |q - k| ≤ 3 / 8) (bound : |k| ≤ 2 ^ 53) :
    (settle v).HasValue k := by
  obtain ⟨above, below⟩ := abs_le.mp close
  have fractionBound : |q - ⌊q⌋| * 2 ^ 3 ≤ 2 ^ 53 := by
    have nonneg := Int.fract_nonneg q
    have small := Int.fract_lt_one q
    rw [Int.fract] at nonneg small
    rw [abs_of_nonneg nonneg]
    linarith
  obtain ⟨f, fraction, error⟩ := value.sub_isWithin value.floor (le_unitPlaces (by decide)) fractionBound
  obtain ⟨errorAbove, errorBelow⟩ := abs_le.mp error
  have floor := value.floor
  have test := half_hasValue.lt_iff fraction
  -- below the integer the fraction is five eighths or more, from the integer on three eighths or less
  rcases lt_or_ge q k with less | reaches
  · have floored : ⌊q⌋ = k - 1 := by
      rw [Int.floor_eq_iff]
      push_cast
      constructor <;> linarith
    rw [floored] at floor errorAbove
    push_cast at errorAbove
    have moved : settle v = v.floor.add one := if_pos (test.mpr (by linarith))
    have sum := floor.add one_hasValue (by rwa [Int.sub_add_cancel])
    rw [moved]
    rwa [Int.sub_add_cancel] at sum
  · have floored : ⌊q⌋ = k := by
      rw [Int.floor_eq_iff]
      constructor <;> linarith
    rw [floored] at floor errorBelow
    have stays : settle v = v.floor := if_neg (mt test.mp (by linarith))
    rwa [stays]

/-! ## The errors of the steps -/

/-- The truncated quotient is not greater than the exact one. -/
lemma abs_tdiv_le (nonzero : n ≠ 0) (m : ℤ) : |(m.tdiv n : ℚ)| ≤ |(m : ℚ) / n| := by
  have pos : (0 : ℚ) < |(n : ℚ)| := abs_pos.mpr (by exact_mod_cast nonzero)
  rw [abs_div, le_div_iff₀ pos, ← Int.cast_abs, ← Int.cast_abs, ← Int.cast_abs, Int.abs_eq_natAbs, Int.abs_eq_natAbs,
    Int.abs_eq_natAbs, Int.natAbs_tdiv]
  exact_mod_cast Nat.div_mul_le_self _ _

section

variable (left : a.Counts m) (right : b.Counts n) (nonzero : n ≠ 0)

include left right nonzero

/-- What the remainder leaves of the dividend is off the multiple of the divisor by its 2 ^ 53rd part at most. -/
lemma sub_rem_isWithin : (a.sub (a.rem b)).IsWithin (|m.tdiv n * (n / unitsPerOne : ℚ)| / 2 ^ 53)
    (m.tdiv n * (n / unitsPerOne : ℚ)) := by
  have split : m - m.tmod n = n * m.tdiv n := by rw [Int.tmod_def, sub_sub_cancel]
  have exact : (m : ℚ) / unitsPerOne - m.tmod n / unitsPerOne = m.tdiv n * (n / unitsPerOne) := by
    rw [← sub_div, ← Int.cast_sub, split]
    push_cast
    ring
  have le : |(m : ℚ) / unitsPerOne - m.tmod n / unitsPerOne| ≤ |(m : ℚ) / unitsPerOne| := by
    rw [← sub_div, ← Int.cast_sub, abs_div_unitsPerOne_le_iff, split, Int.natAbs_mul, Int.natAbs_tdiv]
    exact Nat.mul_div_le _ _
  rw [← exact]
  exact left.hasValue.sub_isWithin_relative (left.rem right nonzero).hasValue left.hasValue le

/-- The quotient is off the truncated one by a quarter at most. -/
lemma div_isWithin (bound : |(m.tdiv n : ℚ)| ≤ 2 ^ 50) :
    ((a.sub (a.rem b)).div b).IsWithin (1 / 4) (m.tdiv n) := by
  obtain ⟨d, whole, error⟩ := sub_rem_isWithin left right nonzero
  have divisor := right.hasValue
  have divisorNonzero : (n : ℚ) / unitsPerOne ≠ 0 := div_ne_zero (by exact_mod_cast nonzero) unitsPerOne_rat_pos.ne'
  generalize (n : ℚ) / unitsPerOne = y at error divisor divisorNonzero
  generalize (m.tdiv n : ℚ) = t at bound error
  have pos : 0 < |y| := abs_pos.mpr divisorNonzero
  -- the error of the difference stays in the same proportion when it is divided
  have scaled : |d / y - t| ≤ 1 / 8 := by
    calc |d / y - t| = |d - t * y| / |y| := by rw [← abs_div, sub_div, mul_div_cancel_right₀ _ divisorNonzero]
      _ ≤ |t * y| / 2 ^ 53 / |y| := div_le_div_of_nonneg_right error pos.le
      _ = |t| / 2 ^ 53 := by rw [abs_mul, div_right_comm, mul_div_cancel_right₀ _ pos.ne']
      _ ≤ 1 / 8 := by linarith
  have inRange : |d / y| * 2 ^ 2 ≤ 2 ^ 53 := by
    have apart := abs_sub_abs_le_abs_sub (d / y) t
    linarith
  have quotient := whole.div_isWithin divisor divisorNonzero (le_unitPlaces (by decide)) inRange
  have sum : (1 / 4 : ℚ) = 1 / 2 ^ (2 + 1) + 1 / 8 := by norm_num
  rw [sum]
  exact quotient.trans scaled

/-- The quotient is off the floored one by three eighths at most. -/
lemma rawQuotient_isWithin (bound : |(m.tdiv n : ℚ)| ≤ 2 ^ 50) : (rawQuotient a b).IsWithin (3 / 8) (m.fdiv n) := by
  obtain ⟨w, value, close⟩ := div_isWithin left right nonzero bound
  by_cases apart : Apart m n
  · obtain ⟨lowered, -⟩ := fdiv_fmod_of_apart nonzero apart
    have inRange : |w - (1 : ℤ)| * 2 ^ 2 ≤ 2 ^ 53 := by
      obtain ⟨above, below⟩ := abs_le.mp close
      obtain ⟨least, greatest⟩ := abs_le.mp bound
      have small : |w - (1 : ℤ)| ≤ 2 ^ 51 := by
        rw [abs_le]
        push_cast
        constructor <;> linarith
      linarith
    have down := value.sub_isWithin one_hasValue (le_unitPlaces (by decide)) inRange
    have shifted : |w - (1 : ℤ) - (m.tdiv n - 1 : ℤ)| ≤ 1 / 4 := by
      push_cast
      rwa [sub_sub_sub_cancel_right]
    have sum : (3 / 8 : ℚ) = 1 / 2 ^ (2 + 1) + 1 / 4 := by norm_num
    rw [rawQuotient, if_pos ((overshoots_iff left right nonzero).mpr apart), lowered, sum]
    exact down.trans shifted
  · obtain ⟨same, -⟩ := fdiv_fmod_of_not_apart nonzero apart
    rw [rawQuotient, if_neg (mt (overshoots_iff left right nonzero).mp apart), same]
    exact ⟨w, value, close.trans (by norm_num)⟩

end

/-! ## The floored quotient -/

/-- A quotient within three eighths of an integer is moved to that integer. -/
lemma floorDiv_hasValue_of_isWithin (close : (rawQuotient a b).IsWithin (3 / 8) k) (bound : |k| ≤ 2 ^ 53) :
    (a.floorDiv b).HasValue k := by
  obtain ⟨q, value, close⟩ := close
  rw [floorDiv]
  split
  · rename_i zero
    have quotientZero : q = 0 := value.unique (hasValue_zero_iff.mpr zero)
    have small : |k| < 1 := by
      rw [quotientZero, zero_sub, abs_neg] at close
      have small : |(k : ℚ)| < 1 := by linarith
      exact_mod_cast small
    rw [Int.abs_lt_one_iff.mp small, Int.cast_zero, hasValue_zero_iff, (counts_zero _).isZero_iff]
  · exact settle_hasValue value close bound

/-- Finite numbers have values, and where the quotient of two values is not above 2 ^ 50 and not below its negative,
floor division gives its floor: the quotient before the last step is off the floor by three eighths at most. -/
theorem floorDiv_hasValue_floor {a b : Binary64} (dividend : a.isFinite = true) (divisor : b.isFinite = true)
    (nonzero : b.isZero = false) :
    (∃ x, a.HasValue x) ∧ (∃ y, b.HasValue y ∧ y ≠ 0) ∧
    ∀ x y, a.HasValue x → b.HasValue y → |x / y| ≤ 2 ^ 50 →
      (rawQuotient a b).IsWithin (3 / 8) ⌊x / y⌋ ∧ (a.floorDiv b).HasValue ⌊x / y⌋ := by
  obtain ⟨m, left⟩ := exists_counts_of_isFinite dividend
  obtain ⟨n, right⟩ := exists_counts_of_isFinite divisor
  have countNonzero : n ≠ 0 := by
    intro countZero
    rw [right.isZero_iff.mpr countZero] at nonzero
    cases nonzero
  refine ⟨⟨_, left.hasValue⟩, ⟨_, right.hasValue, ?_⟩, fun x y dividend divisor bound => ?_⟩
  · exact div_ne_zero (by exact_mod_cast countNonzero) unitsPerOne_rat_pos.ne'
  · rw [dividend.unique left.hasValue, divisor.unique right.hasValue,
      div_div_div_cancel_right₀ unitsPerOne_rat_pos.ne'] at bound ⊢
    have inRange : |⌊(m : ℚ) / n⌋| ≤ 2 ^ 53 := (abs_floor_le (by exact_mod_cast bound)).trans (by norm_num)
    rw [floor_div_eq_fdiv] at inRange ⊢
    have close := rawQuotient_isWithin left right countNonzero ((abs_tdiv_le countNonzero m).trans bound)
    exact ⟨close, floorDiv_hasValue_of_isWithin close inRange⟩

/-- One holds the number nearest to a tenth nine times, since that number is above a tenth; and a negative quotient of
the least numbers goes down. -/
theorem floorDiv_hasValue_floor_of_tenth :
    let tenth := ofUnits .plus unitsPerOne 10
    tenth.HasValue (3602879701896397 / 2 ^ 55) ∧ (one.floorDiv tenth).HasValue 9 ∧
      ((ofUnits .minus 3 1).floorDiv (ofUnits .plus 2 1)).HasValue (-2) := by
  intro tenth
  have tenthValue : tenth.HasValue (3602879701896397 / 2 ^ 55) := by
    have exact : tenth = ofUnits .plus (3602879701896397 * 2 ^ (unitPlaces - 55)) 1 := by decide +kernel
    have fits : Fits ((3602879701896397 : ℤ) * (2 ^ (unitPlaces - 55) : Nat)) :=
      fits_mul_two_pow (by decide) (Nat.sub_le _ _)
    have counts := counts_ofUnits (s := .plus) (by rw [Sign.apply, Int.natCast_mul]; rfl) fits
    rw [exact]
    have value := (hasValue_div_two_pow_iff (le_unitPlaces (by decide))).mpr counts
    rwa [Int.cast_ofNat] at value
  have oneValue : one.HasValue 1 := by exact_mod_cast one_hasValue
  have nine : ⌊(1 : ℚ) / (3602879701896397 / 2 ^ 55)⌋ = 9 := by
    rw [Int.floor_eq_iff]
    norm_num
  have byTenth := floorDiv_hasValue_floor (a := one) (b := tenth) (by decide +kernel) (by decide +kernel)
    (by decide +kernel)
  obtain ⟨-, floored⟩ := byTenth.2.2 _ _ oneValue tenthValue (by rw [abs_of_pos] <;> norm_num)
  rw [nine] at floored
  have dividend : (ofUnits .minus 3 1).Counts (-3) := counts_ofUnits rfl ⟨by decide +kernel, by decide +kernel⟩
  have divisor : (ofUnits .plus 2 1).Counts 2 := counts_ofUnits rfl ⟨by decide +kernel, by decide +kernel⟩
  have ratio : ((-3 : ℤ) : ℚ) / unitsPerOne / ((2 : ℤ) / unitsPerOne) = -3 / 2 := by
    rw [div_div_div_cancel_right₀ unitsPerOne_rat_pos.ne']
    norm_num
  have down : ⌊(-3 : ℚ) / 2⌋ = -2 := by
    rw [Int.floor_eq_iff]
    norm_num
  have ofLeast := floorDiv_hasValue_floor (a := ofUnits .minus 3 1) (b := ofUnits .plus 2 1) (by decide +kernel)
    (by decide +kernel) (by decide +kernel)
  obtain ⟨-, lowered⟩ := ofLeast.2.2 _ _ dividend.hasValue divisor.hasValue
    (by rw [ratio, abs_of_neg] <;> norm_num)
  rw [ratio, down] at lowered
  exact ⟨tenthValue, by exact_mod_cast floored, by exact_mod_cast lowered⟩

end Calculator.Binary64
