import Mathlib.Algebra.Order.Round
import Calculator.Proofs.Binary64.Units

/-!
# Rounding errors

An operation on finite numbers whose exact result is not greater than all numbers is rounded to a number nearest to
that result, so the error is no greater than the distance of any number from it. Two families of numbers bound the
distance: the multiples of 2 ^ -j up to 2 ^ (53 - j) leave half of 2 ^ -j (`exists_isWithin`), and the multiples of
the spacing leave the part 2 ^ -53 of the result (`roundUnits_error`). Main statements: sums, differences, products
and quotients are nearest to the exact ones (`HasValue.add_isNearest`, `HasValue.sub_isNearest`,
`HasValue.mul_isNearest`, `HasValue.div_isNearest`), and the errors of a difference (`HasValue.sub_isWithin_relative`,
`HasValue.sub_isWithin`) and of a quotient (`HasValue.div_isWithin`).
-/

namespace Calculator.Binary64

/-- The number is finite, and its value is off the rational by the given error at most. -/
def IsWithin (v : Binary64) (ε q : ℚ) : Prop :=
  ∃ w, v.HasValue w ∧ |w - q| ≤ ε

variable {a b c v : Binary64} {m n : ℤ} {q r w x y z ε δ : ℚ} {j : Nat}

/-- A number is off its own value by no more than any error. -/
lemma HasValue.isWithin (value : v.HasValue q) (nonneg : 0 ≤ ε) : v.IsWithin ε q := by
  refine ⟨q, value, ?_⟩
  rwa [sub_self, abs_zero]

/-- Errors add up. -/
lemma IsWithin.trans (first : v.IsWithin ε q) (second : |q - r| ≤ δ) : v.IsWithin (ε + δ) r := by
  obtain ⟨w, value, close⟩ := first
  exact ⟨w, value, (abs_sub_le w q r).trans (add_le_add close second)⟩

/-- What is nearest is as close as every number. -/
lemma IsNearest.isWithin (nearest : v.IsNearest q) (close : ∃ u : Binary64, u.IsWithin ε q) : v.IsWithin ε q := by
  obtain ⟨w, value, least⟩ := nearest
  obtain ⟨u, z, other, close⟩ := close
  exact ⟨w, value, (least u z other).trans close⟩

/-! ## Multiples of a power of two -/

/-- The floor is within the bounds of the number when these are integers. -/
lemma abs_floor_le {k : ℤ} (bound : |q| ≤ k) : |⌊q⌋| ≤ k := by
  obtain ⟨above, below⟩ := abs_le.mp bound
  rw [abs_le]
  constructor
  · rw [Int.le_floor, Int.cast_neg]
    exact above
  · rw [← Int.floor_intCast (R := ℚ) k]
    exact Int.floor_mono below

/-- The nearest integer is within the bounds of the number when these are integers. -/
lemma abs_round_le {k : ℤ} (bound : |q| ≤ k) : |round q| ≤ k := by
  obtain ⟨above, below⟩ := abs_le.mp bound
  rw [round_eq, abs_le]
  constructor
  · rw [Int.le_floor]
    push_cast
    linarith
  · rw [← Int.lt_add_one_iff, Int.floor_lt]
    push_cast
    linarith

/-- The nearest multiple of 2 ^ -j is off by half of it at most. -/
lemma exists_isWithin (places : j ≤ unitPlaces) (bound : |q| * 2 ^ j ≤ 2 ^ 53) :
    ∃ u : Binary64, u.IsWithin (1 / 2 ^ (j + 1)) q := by
  have pos : (0 : ℚ) < 2 ^ j := by positivity
  have inRange : |round (q * 2 ^ j)| ≤ 2 ^ 53 := by
    refine abs_round_le ?_
    rw [abs_mul, abs_of_pos pos]
    exact_mod_cast bound
  obtain ⟨u, value⟩ := exists_hasValue_div_two_pow places inRange
  refine ⟨u, _, value, ?_⟩
  have close := abs_sub_round (q * 2 ^ j)
  calc |(round (q * 2 ^ j) : ℚ) / 2 ^ j - q|
      = |q * 2 ^ j - round (q * 2 ^ j)| / 2 ^ j := by
        rw [abs_sub_comm, ← abs_of_pos pos, ← abs_div, abs_of_pos pos, sub_div, mul_div_cancel_right₀ _ pos.ne']
    _ ≤ 1 / 2 / 2 ^ j := div_le_div_of_nonneg_right close pos.le
    _ = 1 / 2 ^ (j + 1) := by rw [div_div, pow_succ']

/-! ## Multiples of the spacing -/

/-- A count that is not representable has a spacing of its 2 ^ 52nd part at most. -/
lemma two_pow_mul_spacing_le {k : Nat} (off : ¬ Representable k) : 2 ^ fractionBits * spacing k ≤ k := by
  have nonzero : k ≠ 0 := by
    rintro rfl
    exact off (Nat.dvd_zero _)
  have long : fractionBits ≤ k.log2 := by
    by_contra short
    have single : spacing k = 1 := by rw [spacing, Nat.sub_eq_zero_of_le (by omega), Nat.pow_zero]
    rw [Representable, single] at off
    exact off (Nat.one_dvd k)
  rw [spacing, ← Nat.pow_add, Nat.add_sub_cancel' long]
  exact Nat.log2_self_le nonzero

/-- Rounding a count changes it by its 2 ^ 53rd part at most. -/
lemma roundUnits_error (num : Nat) : |(roundUnits num 1 : ℚ) - num| ≤ num / 2 ^ 53 := by
  by_cases fits : Representable num
  · have same := roundUnits_mul_self Nat.one_pos fits
    rw [Nat.mul_one] at same
    rw [same, sub_self, abs_zero]
    positivity
  · have part := two_pow_mul_spacing_le fits
    have pos : 0 < spacing num := Nat.two_pow_pos _
    obtain ⟨above, below⟩ := nearest_error num pos
    rw [roundUnits, Nat.div_one, Nat.one_mul]
    generalize nearest num (spacing num) * spacing num = rounded at above below ⊢
    generalize spacing num = step at part above below
    have part : (2 : ℚ) ^ 52 * step ≤ num := by exact_mod_cast part
    have above : 2 * (rounded : ℚ) ≤ 2 * num + step := by exact_mod_cast above
    have below : 2 * (num : ℚ) ≤ 2 * rounded + step := by exact_mod_cast below
    rw [abs_le]
    constructor <;> linarith

/-- Rounding a count gives a number off it by its 2 ^ 53rd part at most. -/
lemma isWithin_ofUnits (bounded : roundUnits n.natAbs 1 < overflowUnits) :
    (ofUnits (Sign.ofInt n) n.natAbs 1).IsWithin (|(n : ℚ) / unitsPerOne| / 2 ^ 53) (n / unitsPerOne) := by
  have counts : (ofUnits (Sign.ofInt n) n.natAbs 1).Counts ((Sign.ofInt n).apply (roundUnits n.natAbs 1)) :=
    ⟨_, _, dif_pos bounded, rfl⟩
  have unit := unitsPerOne_rat_pos
  have turned := (Sign.ofInt n).abs_apply_mul_sub_apply (roundUnits n.natAbs 1) n.natAbs 1
  rw [mul_one, mul_one, Sign.apply_ofInt_natAbs] at turned
  refine ⟨_, counts.hasValue, ?_⟩
  rw [← sub_div, abs_div, abs_div, turned, abs_of_pos unit, div_right_comm, div_le_div_iff_of_pos_right unit,
    ← Int.cast_abs, Int.abs_eq_natAbs, Int.cast_natCast]
  exact roundUnits_error n.natAbs

/-! ## Operations -/

/-- Rounding a quotient of counts that is not greater than all numbers gives the number that is nearest to it. -/
lemma isNearest_ofUnits_of_le (s : Sign) (num : Nat) {den : Nat} (pos : 0 < den) (top : c.HasValue z)
    (le : |((s.apply num : ℤ) : ℚ) / (den * unitsPerOne)| ≤ |z|) :
    (ofUnits s num den).IsNearest ((s.apply num : ℤ) / (den * unitsPerOne)) := by
  have unit := unitsPerOne_rat_pos
  have positive : (0 : ℚ) < den := by exact_mod_cast pos
  obtain ⟨h, top, rfl⟩ := top
  refine isNearest_ofUnits_div s num pos (Nat.lt_of_le_of_lt (roundUnits_le pos top.fits.1 ?_) top.fits.2)
  rw [← div_div, abs_div, abs_div, abs_div, abs_of_pos unit, abs_of_pos positive, div_le_div_iff_of_pos_right unit,
    Sign.abs_apply, div_le_iff₀ positive, ← Int.cast_abs, Int.abs_eq_natAbs] at le
  exact_mod_cast le

/-- A sum that is not greater than all numbers is exact or the rounding of a count. -/
lemma HasValue.add_cases (left : a.HasValue x) (right : b.HasValue y) (top : c.HasValue z) (le : |x + y| ≤ |z|) :
    ∃ n : ℤ, x + y = n / unitsPerOne ∧
      ((a.add b).HasValue (n / unitsPerOne) ∨
        roundUnits n.natAbs 1 < overflowUnits ∧ a.add b = ofUnits (Sign.ofInt n) n.natAbs 1) := by
  obtain ⟨m, left, rfl⟩ := left
  obtain ⟨n, right, rfl⟩ := right
  obtain ⟨l, top, rfl⟩ := top
  have exact : (m : ℚ) / unitsPerOne + n / unitsPerOne = (m + n : ℤ) / unitsPerOne := by
    push_cast
    ring
  refine ⟨m + n, exact, ?_⟩
  rw [exact, abs_div_unitsPerOne_le_iff] at le
  by_cases cancels : m + n = 0
  · exact .inl (left.add right (by rw [cancels]; exact fits_zero)).hasValue
  · refine .inr ⟨Nat.lt_of_le_of_lt (roundUnits_le Nat.one_pos top.fits.1 ?_) top.fits.2, ?_⟩
    · rwa [Nat.mul_one]
    · exact left.add_eq_ofUnits right cancels

/-- A sum that is not greater than all numbers is off the exact one by its 2 ^ 53rd part at most. -/
lemma HasValue.add_isWithin_relative (left : a.HasValue x) (right : b.HasValue y) (top : c.HasValue z)
    (le : |x + y| ≤ |z|) : (a.add b).IsWithin (|x + y| / 2 ^ 53) (x + y) := by
  obtain ⟨n, same, exact | ⟨bounded, rounded⟩⟩ := left.add_cases right top le
  · rw [same]
    exact exact.isWithin (by positivity)
  · rw [same, rounded]
    exact isWithin_ofUnits bounded

/-- A sum that is not greater than all numbers is nearest to the exact one. -/
theorem HasValue.add_isNearest (left : a.HasValue x) (right : b.HasValue y) (top : c.HasValue z)
    (le : |x + y| ≤ |z|) : (a.add b).IsNearest (x + y) := by
  obtain ⟨n, same, exact | ⟨bounded, rounded⟩⟩ := left.add_cases right top le
  · rw [same]
    exact exact.isNearest
  · rw [same, rounded]
    exact isNearest_ofUnits bounded

/-- A difference that is not greater than all numbers is off the exact one by its 2 ^ 53rd part at most. -/
lemma HasValue.sub_isWithin_relative (left : a.HasValue x) (right : b.HasValue y) (top : c.HasValue z)
    (le : |x - y| ≤ |z|) : (a.sub b).IsWithin (|x - y| / 2 ^ 53) (x - y) := by
  rw [sub_eq_add_neg] at le ⊢
  exact left.add_isWithin_relative right.neg top le

/-- A difference that is not greater than all numbers is nearest to the exact one. -/
theorem HasValue.sub_isNearest (left : a.HasValue x) (right : b.HasValue y) (top : c.HasValue z)
    (le : |x - y| ≤ |z|) : (a.sub b).IsNearest (x - y) := by
  rw [sub_eq_add_neg] at le ⊢
  exact left.add_isNearest right.neg top le

/-- A product that is not greater than all numbers is nearest to the exact one. -/
theorem HasValue.mul_isNearest (left : a.HasValue x) (right : b.HasValue y) (top : c.HasValue z)
    (le : |x * y| ≤ |z|) : (a.mul b).IsNearest (x * y) := by
  obtain ⟨_, ⟨s, k, rfl, rfl⟩, rfl⟩ := left
  obtain ⟨_, ⟨t, l, rfl, rfl⟩, rfl⟩ := right
  have same : ((s.apply k.units : ℤ) : ℚ) / unitsPerOne * ((t.apply l.units : ℤ) / unitsPerOne) =
      ((s.mul t).apply (k.units * l.units) : ℤ) / (unitsPerOne * unitsPerOne) := by
    rw [div_mul_div_comm]
    cases s <;> cases t <;> simp [Sign.mul, Sign.apply]
  rw [same] at le ⊢
  exact isNearest_ofUnits_of_le _ _ unitsPerOne_pos top le

/-- A quotient that is not greater than all numbers is nearest to the exact one. -/
theorem HasValue.div_isNearest (left : a.HasValue x) (right : b.HasValue y) (nonzero : y ≠ 0) (top : c.HasValue z)
    (le : |x / y| ≤ |z|) : (a.div b).IsNearest (x / y) := by
  have unit := unitsPerOne_rat_pos
  obtain ⟨_, ⟨s, k, rfl, rfl⟩, rfl⟩ := left
  obtain ⟨_, ⟨t, l, rfl, rfl⟩, rfl⟩ := right
  have pos : 0 < l.units := by
    refine units_pos (s := t) fun zero => nonzero ?_
    rw [zero, Int.cast_zero, zero_div]
  have positive : (0 : ℚ) < l.units := by exact_mod_cast pos
  have same : ((s.apply k.units : ℤ) : ℚ) / unitsPerOne / ((t.apply l.units : ℤ) / unitsPerOne) =
      ((s.mul t).apply (k.units * unitsPerOne) : ℤ) / (l.units * unitsPerOne) := by
    cases s <;> cases t <;> simp [Sign.mul, Sign.apply] <;> field_simp
  rw [same] at le ⊢
  rw [Binary64.div, if_neg pos.ne']
  exact isNearest_ofUnits_of_le _ _ pos top le

/-- The range of the multiples of 2 ^ -j ends at the integer 2 ^ 53 or below it. -/
lemma abs_le_top (bound : |q| * 2 ^ j ≤ 2 ^ 53) : |q| ≤ |((2 ^ 53 : ℤ) : ℚ)| := by
  have one : (1 : ℚ) ≤ 2 ^ j := one_le_pow₀ (by norm_num)
  rw [Int.cast_pow, Int.cast_ofNat, abs_of_pos (a := (2 : ℚ) ^ 53) (by positivity)]
  exact (le_mul_of_one_le_right (abs_nonneg q) one).trans bound

/-- A difference up to 2 ^ (53 - j) is off the exact one by half of 2 ^ -j at most. -/
lemma HasValue.sub_isWithin (left : a.HasValue x) (right : b.HasValue y) (places : j ≤ unitPlaces)
    (bound : |x - y| * 2 ^ j ≤ 2 ^ 53) : (a.sub b).IsWithin (1 / 2 ^ (j + 1)) (x - y) := by
  obtain ⟨c, top⟩ := exists_hasValue (k := 2 ^ 53) le_rfl
  exact (left.sub_isNearest right top (abs_le_top bound)).isWithin (exists_isWithin places bound)

/-- A quotient up to 2 ^ (53 - j) is off the exact one by half of 2 ^ -j at most. -/
lemma HasValue.div_isWithin (left : a.HasValue x) (right : b.HasValue y) (nonzero : y ≠ 0)
    (places : j ≤ unitPlaces) (bound : |x / y| * 2 ^ j ≤ 2 ^ 53) :
    (a.div b).IsWithin (1 / 2 ^ (j + 1)) (x / y) := by
  obtain ⟨c, top⟩ := exists_hasValue (k := 2 ^ 53) le_rfl
  exact (left.div_isNearest right nonzero top (abs_le_top bound)).isWithin (exists_isWithin places bound)

end Calculator.Binary64
