import Mathlib.Tactic.Linarith
import Mathlib.Tactic.Ring
import Mathlib.Algebra.Order.Field.Rat
import Calculator.Proofs.Binary64.Rounding

/-!
# What rounding gives is nearest

The nearest integer is off by half of the denominator at most, so no multiple of the spacing is closer to a quotient
than the one it is rounded to. A representable number that is no such multiple lies below the binade of the quotient,
whose first number is a multiple and closer. Main statements: no representable number is closer to a quotient than its
rounding (`roundUnits_dist_le`), and the rounding stays on the same side of every representable number
(`le_roundUnits`, `roundUnits_le`).
-/

namespace Calculator.Binary64

variable {num den units : Nat}

/-! ## The nearest integer -/

/-- The nearest integer is off by half of the denominator at most. -/
lemma nearest_error (num : Nat) (pos : 0 < den) :
    2 * (nearest num den * den) ≤ 2 * num + den ∧ 2 * num ≤ 2 * (nearest num den * den) + den := by
  have split := Nat.div_add_mod num den
  have small := Nat.mod_lt num pos
  rw [Nat.mul_comm den] at split
  simp only [nearest]
  generalize num / den = b at split ⊢
  generalize num % den = r at split small ⊢
  split
  · omega
  · split
    · rw [Nat.add_mul, Nat.one_mul]
      omega
    · rcases Nat.mod_two_eq_zero_or_one b with even | odd
      · rw [even, Nat.add_zero]
        omega
      · rw [odd, Nat.add_mul, Nat.one_mul]
        omega

/-- No integer is closer to a quotient than the nearest one. -/
lemma nearest_dist_le (num : Nat) (pos : 0 < den) (k : Nat) :
    |(nearest num den : ℚ) * den - num| ≤ |(k : ℚ) * den - num| := by
  obtain ⟨above, below⟩ := nearest_error num pos
  have above : 2 * ((nearest num den : ℚ) * den) ≤ 2 * num + den := by exact_mod_cast above
  have below : 2 * (num : ℚ) ≤ 2 * ((nearest num den : ℚ) * den) + den := by exact_mod_cast below
  have positive : (0 : ℚ) < den := by exact_mod_cast pos
  have close : |(nearest num den : ℚ) * den - num| ≤ den / 2 := by
    rw [abs_le]
    constructor <;> linarith
  -- another integer is at least one off the nearest, hence at least half of the denominator off the quotient
  rcases Nat.lt_trichotomy k (nearest num den) with less | rfl | more
  · have step : ((k : ℚ) + 1) * den ≤ nearest num den * den :=
      mul_le_mul_of_nonneg_right (by exact_mod_cast less) positive.le
    refine close.trans (le_trans ?_ (neg_le_abs _))
    linarith
  · exact le_rfl
  · have step : ((nearest num den : ℚ) + 1) * den ≤ k * den :=
      mul_le_mul_of_nonneg_right (by exact_mod_cast more) positive.le
    refine close.trans (le_trans ?_ (le_abs_self _))
    linarith

/-! ## The grid of a binade -/

/-- The first number of a binade is a multiple of its spacing. -/
lemma spacing_dvd_two_pow_log2 (q : Nat) : spacing q ∣ 2 ^ q.log2 :=
  Nat.pow_dvd_pow 2 (Nat.sub_le _ _)

/-- A representable number that is no multiple of the spacing of a binade lies below it. -/
lemma lt_two_pow_log2 {q : Nat} (fits : Representable units) (off : ¬ spacing q ∣ units) : units < 2 ^ q.log2 := by
  by_contra reaches
  have nonzero : units ≠ 0 := by
    rintro rfl
    exact off (Nat.dvd_zero _)
  have le : q.log2 ≤ units.log2 := (Nat.le_log2 nonzero).mpr (Nat.le_of_not_lt reaches)
  exact off (Nat.dvd_trans (Nat.pow_dvd_pow 2 (by omega)) fits)

/-! ## The rounded number -/

/-- No multiple of the spacing is closer to a quotient than its rounding. -/
lemma roundUnits_dist_le_of_dvd (pos : 0 < den) (grid : spacing (num / den) ∣ units) :
    |(roundUnits num den : ℚ) * den - num| ≤ |(units : ℚ) * den - num| := by
  obtain ⟨k, rfl⟩ := grid
  have closest := nearest_dist_le num (Nat.mul_pos pos (Nat.two_pow_pos _) : 0 < den * spacing (num / den)) k
  unfold roundUnits
  push_cast at closest ⊢
  calc |(nearest num (den * spacing (num / den)) : ℚ) * spacing (num / den) * den - num|
      = |(nearest num (den * spacing (num / den)) : ℚ) * (den * spacing (num / den)) - num| := by ring_nf
    _ ≤ |(k : ℚ) * (den * spacing (num / den)) - num| := closest
    _ = |(spacing (num / den) : ℚ) * k * den - num| := by ring_nf

/-- No representable number is closer to a quotient than its rounding. -/
lemma roundUnits_dist_le (num : Nat) (pos : 0 < den) (fits : Representable units) :
    |(roundUnits num den : ℚ) * den - num| ≤ |(units : ℚ) * den - num| := by
  by_cases grid : spacing (num / den) ∣ units
  · exact roundUnits_dist_le_of_dvd pos grid
  · have less := lt_two_pow_log2 fits grid
    have nonzero : num / den ≠ 0 := by
      intro zero
      rw [zero] at grid
      exact grid (Nat.one_dvd units)
    have begins : 2 ^ (num / den).log2 * den ≤ num :=
      (Nat.le_div_iff_mul_le pos).mp (Nat.log2_self_le nonzero)
    -- the first number of the binade lies between the number and the quotient
    refine (roundUnits_dist_le_of_dvd pos (spacing_dvd_two_pow_log2 (num / den))).trans ?_
    generalize 2 ^ (num / den).log2 = first at less begins ⊢
    have begins : (first : ℚ) * den ≤ num := by exact_mod_cast begins
    have between : (units : ℚ) * den ≤ first * den :=
      mul_le_mul_of_nonneg_right (by exact_mod_cast less.le) (Nat.cast_nonneg den)
    rw [abs_of_nonpos (by linarith), abs_of_nonpos (by linarith)]
    linarith

/-- A quotient that is not below a representable number is not rounded below it. -/
lemma le_roundUnits (pos : 0 < den) (fits : Representable units) (le : units * den ≤ num) :
    units ≤ roundUnits num den := by
  by_contra less
  have closest := roundUnits_dist_le num pos fits
  have le : (units : ℚ) * den ≤ num := by exact_mod_cast le
  have less : (roundUnits num den : ℚ) * den < units * den :=
    mul_lt_mul_of_pos_right (by exact_mod_cast Nat.lt_of_not_le less) (by exact_mod_cast pos)
  rw [abs_of_nonpos (by linarith), abs_of_nonpos (by linarith)] at closest
  linarith

/-- A quotient that is not above a representable number is not rounded above it. -/
lemma roundUnits_le (pos : 0 < den) (fits : Representable units) (le : num ≤ units * den) :
    roundUnits num den ≤ units := by
  by_contra more
  have closest := roundUnits_dist_le num pos fits
  have le : (num : ℚ) ≤ units * den := by exact_mod_cast le
  have more : (units : ℚ) * den < roundUnits num den * den :=
    mul_lt_mul_of_pos_right (by exact_mod_cast Nat.lt_of_not_le more) (by exact_mod_cast pos)
  rw [abs_of_nonneg (by linarith), abs_of_nonneg (by linarith)] at closest
  linarith

end Calculator.Binary64
