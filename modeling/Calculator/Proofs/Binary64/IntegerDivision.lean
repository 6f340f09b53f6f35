import Calculator.Proofs.Binary64.Remainder

/-!
# Floor division of integers

Every integer up to 2 ^ 53 is a number, and operations with such a result are exact on integers. None of the steps of
floor division leaves these integers when it starts from two of them: the quotients, the remainders and what is left
of the dividend are not above the dividend or the divisor. So the quotient is an integer before it is moved to one.
Where it is zero, the quotient of the numbers themselves is computed too; it need not be an integer
(`exists_quotient_not_integer`), but only its sign is read. Main statement: the floored quotient and its remainder are
those of the integers (`integer_floorDiv_mod`).
-/

namespace Calculator.Binary64

variable {a b v : Binary64} {k l x y : ℤ}

/-- The integers up to 2 ^ 53 fit. -/
lemma fits_of_abs_le (bound : |k| ≤ 2 ^ 53) : Fits (k * unitsPerOne) := by
  refine fits_mul_unitsPerOne ?_
  rw [Int.abs_eq_natAbs] at bound
  exact_mod_cast bound

/-- What is not greater than an integer in the range is in the range. -/
lemma abs_le_of_natAbs_le (le : k.natAbs ≤ l.natAbs) (bound : |l| ≤ 2 ^ 53) : |k| ≤ 2 ^ 53 := by
  refine le_trans ?_ bound
  rw [Int.abs_eq_natAbs, Int.abs_eq_natAbs]
  exact_mod_cast le

/-! ## Operations on integers -/

/-- An integer other than zero counts units other than zero. -/
lemma mul_unitsPerOne_ne_zero (nonzero : k ≠ 0) : k * unitsPerOne ≠ 0 :=
  Int.mul_ne_zero nonzero unitsPerOne_int_pos.ne'

/-- The truncated remainder of counts is that of the integers they count. -/
lemma tmod_mul_unitsPerOne (k l : ℤ) : (k * unitsPerOne).tmod (l * unitsPerOne) = k.tmod l * unitsPerOne := by
  rw [Int.mul_comm k, Int.mul_comm l, Int.mul_tmod_mul_of_pos _ _ unitsPerOne_int_pos, Int.mul_comm]

/-- The floored remainder of counts is that of the integers they count. -/
lemma fmod_mul_unitsPerOne (k l : ℤ) : (k * unitsPerOne).fmod (l * unitsPerOne) = k.fmod l * unitsPerOne := by
  rw [Int.mul_comm k, Int.mul_comm l, Int.mul_fmod_mul_of_pos _ _ unitsPerOne_int_pos, Int.mul_comm]

/-- Counts are apart exactly when the integers they count are. -/
lemma apart_mul_unitsPerOne_iff : Apart (k * unitsPerOne) (l * unitsPerOne) ↔ Apart k l := by
  have negative : l * unitsPerOne < 0 ↔ l < 0 := by
    rw [← not_le, mul_nonneg_iff_of_pos_right unitsPerOne_int_pos, not_le]
  rw [Apart, Apart, tmod_mul_unitsPerOne, mul_ne_zero_iff_right unitsPerOne_int_pos.ne', negative,
    mul_pos_iff_of_pos_right unitsPerOne_int_pos]

namespace HasValue

/-- A difference of integers that stays in the range is exact. -/
lemma sub (left : a.HasValue k) (right : b.HasValue l) (bound : |k - l| ≤ 2 ^ 53) : (a.sub b).HasValue (k - l : ℤ) := by
  rw [hasValue_intCast_iff] at left right ⊢
  have fits := fits_of_abs_le bound
  rw [Int.sub_mul] at fits ⊢
  exact left.sub right fits

/-- A sum of integers that stays in the range is exact. -/
lemma add (left : a.HasValue k) (right : b.HasValue l) (bound : |k + l| ≤ 2 ^ 53) : (a.add b).HasValue (k + l : ℤ) := by
  rw [hasValue_intCast_iff] at left right ⊢
  have fits := fits_of_abs_le bound
  rw [Int.add_mul] at fits ⊢
  exact left.add right fits

/-- The truncated remainder of integers is exact. -/
lemma rem (left : a.HasValue k) (right : b.HasValue l) (nonzero : l ≠ 0) : (a.rem b).HasValue (k.tmod l : ℤ) := by
  rw [hasValue_intCast_iff] at left right ⊢
  rw [← tmod_mul_unitsPerOne]
  exact left.rem right (mul_unitsPerOne_ne_zero nonzero)

/-- A quotient of integers that is an integer in the range is exact. -/
lemma div (left : a.HasValue (l * k : ℤ)) (right : b.HasValue l) (nonzero : l ≠ 0) (bound : |k| ≤ 2 ^ 53) :
    (a.div b).HasValue k := by
  rw [hasValue_intCast_iff] at left right ⊢
  refine left.div right (mul_unitsPerOne_ne_zero nonzero) ?_ (fits_of_abs_le bound)
  ring

/-- An integer is its own floor. -/
lemma floor_intCast (value : v.HasValue k) : v.floor.HasValue k := by
  have floored := value.floor
  rwa [Int.floor_intCast] at floored

end HasValue

/-- One is the integer one. -/
lemma one_hasValue : one.HasValue (1 : ℤ) := by
  rw [hasValue_intCast_iff, Int.one_mul]
  have fits := fits_of_abs_le (k := 1) (by decide)
  rw [Int.one_mul] at fits
  exact counts_ofUnits rfl fits

/-- One half is half of one. -/
lemma half_hasValue : half.HasValue (1 / 2) := by
  have places : 1 ≤ unitPlaces := le_unitPlaces (by decide)
  have fits : Fits ((1 : ℤ) * (2 ^ (unitPlaces - 1) : Nat)) := fits_mul_two_pow (by decide) (Nat.sub_le _ _)
  have split : unitsPerOne = 2 ^ (unitPlaces - 1) * 2 := by
    rw [unitsPerOne, ← Nat.pow_succ, Nat.succ_eq_add_one, Nat.sub_add_cancel places]
  have value := hasValue_div_two_pow_iff (v := half) (k := 1) places
  rw [Int.one_mul] at fits value
  rw [Int.cast_one, pow_one] at value
  rw [value, half, split]
  exact ⟨.plus, ⟨_, fits.1, fits.2⟩, ofUnits_mul_self .plus ⟨_, fits.1, fits.2⟩ Nat.two_pos, rfl⟩

/-- The fraction of an integer is zero. -/
lemma HasValue.fraction (value : v.HasValue k) : (v.sub v.floor).HasValue 0 := by
  have fraction := value.sub value.floor_intCast (by rw [Int.sub_self]; decide)
  rwa [Int.sub_self, Int.cast_zero] at fraction

/-- An integer is not moved. -/
lemma HasValue.settle (value : v.HasValue k) : (Binary64.settle v).HasValue k := by
  have small : ¬ half.lt (v.sub v.floor) = true := by
    rw [half_hasValue.lt_iff value.fraction]
    norm_num
  have stays : Binary64.settle v = v.floor := if_neg small
  rw [stays]
  exact value.floor_intCast

/-! ## The steps of floor division -/

/-- The truncated remainder is corrected exactly when it is apart from the divisor. -/
lemma overshoots_iff_apart (dividend : a.HasValue x) (divisor : b.HasValue y) (nonzero : y ≠ 0) :
    overshoots a b = true ↔ Apart x y := by
  rw [hasValue_intCast_iff] at dividend divisor
  rw [overshoots_iff dividend divisor (mul_unitsPerOne_ne_zero nonzero), apart_mul_unitsPerOne_iff]

/-- The numbers that floor division of integers goes through have the values that they have in exact arithmetic. -/
structure ExactSteps (a b : Binary64) (x y : ℤ) : Prop where
  rem : (a.rem b).HasValue (x.tmod y : ℤ)
  whole : (a.sub (a.rem b)).HasValue (y * x.tdiv y : ℤ)
  truncated : ((a.sub (a.rem b)).div b).HasValue (x.tdiv y : ℤ)
  quotient : (rawQuotient a b).HasValue (x.fdiv y : ℤ)
  floor : (rawQuotient a b).floor.HasValue (x.fdiv y : ℤ)
  fraction : ((rawQuotient a b).sub (rawQuotient a b).floor).HasValue 0

section

variable (dividend : a.HasValue x) (divisor : b.HasValue y) (nonzero : y ≠ 0)

include dividend divisor nonzero

/-- The remainder is the floored one of the integers. -/
lemma mod_hasValue (bound : |y| ≤ 2 ^ 53) : (a.mod b).HasValue (x.fmod y : ℤ) := by
  have notZero := mul_unitsPerOne_ne_zero nonzero
  rw [hasValue_intCast_iff] at dividend divisor ⊢
  rw [← fmod_mul_unitsPerOne]
  by_cases dvd : y * unitsPerOne ∣ x * unitsPerOne
  · rw [mod_of_dvd dividend divisor notZero dvd, Int.fmod_eq_zero_of_dvd dvd]
    exact counts_zero b.sign
  · rw [mod_of_not_dvd dividend divisor notZero dvd]
    refine counts_ofUnits (Sign.apply_ofInt_natAbs _) ?_
    rw [fmod_mul_unitsPerOne]
    exact fits_of_abs_le (abs_le_of_natAbs_le (natAbs_fmod_le nonzero x) bound)

/-- The truncated quotient is lowered by one where floored division is. -/
lemma rawQuotient_hasValue (truncated : ((a.sub (a.rem b)).div b).HasValue (x.tdiv y : ℤ)) (bound : |x| ≤ 2 ^ 53) :
    (rawQuotient a b).HasValue (x.fdiv y : ℤ) := by
  have overshoots := overshoots_iff_apart dividend divisor nonzero
  by_cases apart : Apart x y
  · obtain ⟨lowered, -⟩ := fdiv_fmod_of_apart nonzero apart
    have inRange := abs_le_of_natAbs_le (Int.natAbs_fdiv_le_natAbs x y) bound
    rw [rawQuotient, if_pos (overshoots.mpr apart)]
    rw [lowered] at inRange ⊢
    exact truncated.sub one_hasValue inRange
  · obtain ⟨same, -⟩ := fdiv_fmod_of_not_apart nonzero apart
    rw [rawQuotient, if_neg (mt overshoots.mp apart), same]
    exact truncated

/-- Every step of floor division is exact on integers up to 2 ^ 53. -/
lemma exactSteps (bound : |x| ≤ 2 ^ 53) : ExactSteps a b x y := by
  have multiple : x - x.tmod y = y * x.tdiv y := by rw [Int.tmod_def, sub_sub_cancel]
  have less : (x - x.tmod y).natAbs ≤ x.natAbs := by
    rw [multiple, Int.natAbs_mul, Int.natAbs_tdiv]
    exact Nat.mul_div_le _ _
  have rem := dividend.rem divisor nonzero
  have whole := dividend.sub rem (abs_le_of_natAbs_le less bound)
  rw [multiple] at whole
  have truncated := whole.div divisor nonzero (abs_le_of_natAbs_le (Int.natAbs_tdiv_le_natAbs x y) bound)
  have quotient := rawQuotient_hasValue dividend divisor nonzero truncated bound
  exact ⟨rem, whole, truncated, quotient, quotient.floor_intCast, quotient.fraction⟩

end

/-- With exact steps the floored quotient is that of the integers. -/
lemma ExactSteps.floorDiv (steps : ExactSteps a b x y) : (a.floorDiv b).HasValue (x.fdiv y : ℤ) := by
  rw [Binary64.floorDiv]
  split
  · rename_i zero
    have quotientZero := (hasValue_intCast_iff.mp steps.quotient).isZero_iff.mp zero
    rw [hasValue_intCast_iff, quotientZero]
    exact counts_zero _
  · exact steps.quotient.settle

/-- Integers up to 2 ^ 53 are numbers, and floor division of such numbers is that of the integers: the quotient is the
greatest integer that is not above the exact quotient, the remainder is what it leaves, and every step is exact. -/
theorem integer_floorDiv_mod {x y : ℤ} (dividend : |x| ≤ 2 ^ 53) (divisor : |y| ≤ 2 ^ 53) (nonzero : y ≠ 0) :
    (∃ a, HasValue a x) ∧ (∃ b, HasValue b y) ∧
    ∀ a b, HasValue a x → HasValue b y →
      ∃ q r : ℤ, q = ⌊(x / y : ℚ)⌋ ∧ r = x - y * q ∧ q * y + r = x ∧
        (a.floorDiv b).HasValue q ∧ (a.mod b).HasValue r ∧ ExactSteps a b x y := by
  refine ⟨exists_hasValue dividend, exists_hasValue divisor, fun a b left right => ?_⟩
  have steps := exactSteps left right nonzero dividend
  refine ⟨x.fdiv y, x.fmod y, (floor_div_eq_fdiv x y).symm, Int.fmod_def x y, ?_, steps.floorDiv,
    mod_hasValue left right nonzero divisor, steps⟩
  rw [Int.mul_comm]
  exact Int.mul_fdiv_add_fmod x y

/-- The least integer of the range, divided by three. -/
theorem integer_floorDiv_mod_of_least :
    ∃ a b : Binary64, a.HasValue (-2 ^ 53 : ℤ) ∧ b.HasValue (3 : ℤ) ∧
      (a.floorDiv b).HasValue (-3002399751580331 : ℤ) ∧ (a.mod b).HasValue (1 : ℤ) := by
  obtain ⟨⟨a, left⟩, ⟨b, right⟩, divides⟩ :=
    integer_floorDiv_mod (x := -2 ^ 53) (y := 3) (by decide) (by decide) (by decide)
  obtain ⟨q, r, quotient, remainder, -, floored, leftOver, -⟩ := divides a b left right
  have below : q = -3002399751580331 := by
    rw [quotient, floor_div_eq_fdiv]
    decide
  have rest : r = 1 := by
    rw [remainder, below]
    decide
  exact ⟨a, b, left, right, below ▸ floored, rest ▸ leftOver⟩

/-- One divided by three: the quotient is zero, so its sign is that of the quotient of the numbers, which is computed
for it and is no integer. -/
theorem exists_quotient_not_integer :
    ∃ a b : Binary64, a.HasValue (1 : ℤ) ∧ b.HasValue (3 : ℤ) ∧ (rawQuotient a b).isZero = true ∧
      a.floorDiv b = zero (a.div b).sign ∧ ∀ k : ℤ, ¬ (a.div b).HasValue k := by
  let three := ofUnits .plus (3 * unitsPerOne) 1
  have divisor : three.HasValue (3 : ℤ) :=
    hasValue_intCast_iff.mpr (counts_ofUnits (by simp [Sign.apply]) (fits_of_abs_le (by decide)))
  have nothing : (zero .plus).HasValue 0 := hasValue_zero_iff.mpr (by decide +kernel)
  have isZero : (rawQuotient one three).isZero = true := by decide +kernel
  have positive : (zero .plus).lt (one.div three) = true := by decide +kernel
  have less : (one.div three).lt one = true := by decide +kernel
  refine ⟨one, three, one_hasValue, divisor, isZero, if_pos isZero, fun k value => ?_⟩
  -- an integer between zero and one
  rw [nothing.lt_iff value] at positive
  rw [value.lt_iff one_hasValue] at less
  norm_cast at positive less
  omega

end Calculator.Binary64
