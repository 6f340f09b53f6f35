import Calculator.Proofs.Binary64.Units

/-!
# The remainder of floored division

The truncated remainder is exact. When it is nonzero and has not the sign of the divisor, the divisor is added to it,
which is the one rounding: the remainder is the number nearest to the floored remainder of the counts
(`mod_of_not_dvd`). That remainder is at least a unit and no greater than the divisor, two representable numbers that
rounding does not leave. Main statement: the remainder has the sign of the divisor, is not greater, and vanishes for
multiples only (`mod_flooredRemainder`).
-/

namespace Calculator.Binary64

variable {a b : Binary64} {m n : ℤ}

/-! ## Floored division of integers -/

/-- The truncated remainder is nonzero and has not the sign of the divisor. -/
def Apart (m n : ℤ) : Prop :=
  m.tmod n ≠ 0 ∧ (n < 0 ↔ 0 < m.tmod n)

section

variable (nonzero : n ≠ 0)

include nonzero

/-- The truncated remainder is smaller than the divisor. -/
lemma natAbs_tmod_lt (m : ℤ) : (m.tmod n).natAbs < n.natAbs := by
  rw [Int.natAbs_tmod]
  exact Nat.mod_lt _ (Int.natAbs_pos.mpr nonzero)

/-- Where the truncated remainder has not the sign of the divisor, floored division is one step below truncated. -/
lemma fdiv_fmod_of_apart (apart : Apart m n) : m.fdiv n = m.tdiv n - 1 ∧ m.fmod n = m.tmod n + n := by
  have split := Int.tmod_add_mul_tdiv m n
  have small := natAbs_tmod_lt nonzero m
  obtain ⟨remains, opposed⟩ := apart
  have lowered : m.tmod n + n + n * (m.tdiv n - 1) = m := by
    rw [Int.mul_sub, Int.mul_one]
    omega
  rcases Int.lt_or_gt_of_ne nonzero with negative | positive
  · exact (Int.fdiv_fmod_unique' negative).mpr ⟨lowered, by omega, by omega⟩
  · exact (Int.fdiv_fmod_unique positive).mpr ⟨lowered, by omega, by omega⟩

/-- Everywhere else it is truncated division. -/
lemma fdiv_fmod_of_not_apart (same : ¬ Apart m n) : m.fdiv n = m.tdiv n ∧ m.fmod n = m.tmod n := by
  have split := Int.tmod_add_mul_tdiv m n
  have small := natAbs_tmod_lt nonzero m
  have agrees : m.tmod n = 0 ∨ ¬ (n < 0 ↔ 0 < m.tmod n) := by
    rw [Apart, not_and_or, not_not] at same
    exact same
  rcases Int.lt_or_gt_of_ne nonzero with negative | positive
  · exact (Int.fdiv_fmod_unique' negative).mpr ⟨split, by omega, by omega⟩
  · exact (Int.fdiv_fmod_unique positive).mpr ⟨split, by omega, by omega⟩

/-- The floored remainder lies between zero and the divisor. -/
lemma fmod_between (m : ℤ) : (0 ≤ m.fmod n ∧ m.fmod n < n) ∨ (n < m.fmod n ∧ m.fmod n ≤ 0) := by
  rcases Int.lt_or_gt_of_ne nonzero with negative | positive
  · exact .inr ((Int.fdiv_fmod_unique' negative).mp ⟨rfl, rfl⟩).2
  · exact .inl ((Int.fdiv_fmod_unique positive).mp ⟨rfl, rfl⟩).2

/-- The floored remainder is not greater than the divisor. -/
lemma natAbs_fmod_le (m : ℤ) : (m.fmod n).natAbs ≤ n.natAbs := by
  have between := fmod_between nonzero m
  omega

/-- A floored remainder other than zero has the sign of the divisor. -/
lemma ofInt_fmod (remains : m.fmod n ≠ 0) : Sign.ofInt (m.fmod n) = Sign.ofInt n := by
  have between := fmod_between nonzero m
  have sameSide : m.fmod n < 0 ↔ n < 0 := by omega
  simp only [Sign.ofInt, sameSide]

end

/-- The floored quotient of integers is the floor of their exact quotient. -/
lemma floor_div_eq_fdiv (m n : ℤ) : ⌊(m : ℚ) / n⌋ = m.fdiv n := by
  have nonneg (k : ℤ) (d : ℕ) : ⌊(k : ℚ) / (d : ℤ)⌋ = k.fdiv d := by
    rw [Int.fdiv_eq_ediv_of_nonneg k (Int.natCast_nonneg d), Int.cast_natCast, Rat.floor_intCast_div_natCast]
  obtain ⟨d, rfl | rfl⟩ := n.eq_nat_or_neg
  · exact nonneg m d
  · have turned := nonneg (-m) d
    rwa [Int.cast_neg, neg_div, ← div_neg, ← Int.cast_neg, ← Int.neg_fdiv_neg, Int.neg_neg] at turned

/-! ## The remainder of counts -/

section

variable (left : a.Counts m) (right : b.Counts n) (nonzero : n ≠ 0)

include left right nonzero

/-- The truncated remainder is corrected exactly when its count is apart from that of the divisor. -/
lemma overshoots_iff : overshoots a b = true ↔ Apart m n := by
  have remainder := left.rem right nonzero
  have isZero := remainder.isZero_iff
  have remainderNegative := remainder.isNegative_iff
  have divisorNegative := right.isNegative_iff
  rw [overshoots, Apart, Bool.and_eq_true, Bool.not_eq_true', ← Bool.not_eq_true, isZero, bne_iff_ne, ne_eq,
    Bool.eq_iff_iff, remainderNegative, divisorNegative]
  omega

/-- A multiple of the divisor leaves a zero with its sign. -/
lemma mod_of_dvd (dvd : n ∣ m) : a.mod b = zero b.sign :=
  if_pos ((left.rem right nonzero).isZero_iff.mpr (Int.tmod_eq_zero_of_dvd dvd))

/-- Every other number leaves the floored remainder, rounded. -/
lemma mod_of_not_dvd (off : ¬ n ∣ m) : a.mod b = ofUnits (Sign.ofInt (m.fmod n)) (m.fmod n).natAbs 1 := by
  have remainder := left.rem right nonzero
  have remains : m.fmod n ≠ 0 := mt Int.dvd_iff_fmod_eq_zero.mpr off
  have notZero : ¬ (a.rem b).isZero = true := fun zero =>
    off (Int.dvd_of_tmod_eq_zero (remainder.isZero_iff.mp zero))
  rw [mod, if_neg notZero]
  by_cases apart : Apart m n
  · obtain ⟨-, lowered⟩ := fdiv_fmod_of_apart nonzero apart
    rw [if_pos ((overshoots_iff left right nonzero).mpr apart), lowered]
    exact remainder.add_eq_ofUnits right (lowered ▸ remains)
  · obtain ⟨-, same⟩ := fdiv_fmod_of_not_apart nonzero apart
    rw [if_neg (mt (overshoots_iff left right nonzero).mp apart)]
    rw [← same] at remainder
    exact remainder.eq_ofUnits remains

/-- The rounded remainder of a number that is no multiple counts at least a unit and no more than the divisor. -/
lemma counts_mod_of_not_dvd (off : ¬ n ∣ m) : ∃ r : Nat, 0 < r ∧ r ≤ n.natAbs ∧
    (a.mod b).Counts ((Sign.ofInt n).apply r) ∧ (a.mod b).IsNearest (m.fmod n / unitsPerOne) := by
  have remains : m.fmod n ≠ 0 := mt Int.dvd_iff_fmod_eq_zero.mpr off
  have atLeast : 1 ≤ roundUnits (m.fmod n).natAbs 1 := by
    refine le_roundUnits Nat.one_pos (by decide) ?_
    rw [Nat.one_mul]
    exact Int.natAbs_pos.mpr remains
  have atMost : roundUnits (m.fmod n).natAbs 1 ≤ n.natAbs := by
    refine roundUnits_le Nat.one_pos right.fits.1 ?_
    rw [Nat.mul_one]
    exact natAbs_fmod_le nonzero m
  have bounded := Nat.lt_of_le_of_lt atMost right.fits.2
  rw [mod_of_not_dvd left right nonzero off]
  refine ⟨roundUnits (m.fmod n).natAbs 1, atLeast, atMost, ?_, isNearest_ofUnits bounded⟩
  rw [ofInt_fmod nonzero remains]
  exact ⟨_, _, dif_pos bounded, rfl⟩

end

/-! ## Absolute values and multiples -/

/-- The absolute value of the one number is not above that of the other. -/
inductive AbsLe : Binary64 → Binary64 → Prop where
  | infinite {v s} :
    v ≠ nan →
    AbsLe v (infinite s)
  | finite {v w : Binary64} {q r : ℚ} :
    v.HasValue q →
    w.HasValue r →
    |q| ≤ |r| →
    AbsLe v w

/-- The one number is an exact multiple of the other; only a zero is one of an infinity. -/
inductive MultipleOf : Binary64 → Binary64 → Prop where
  | infinite {v : Binary64} {s} :
    v.HasValue 0 →
    MultipleOf v (infinite s)
  | finite {v w : Binary64} {q r : ℚ} (k : ℤ) :
    v.HasValue q →
    w.HasValue r →
    q = k * r →
    MultipleOf v w

/-- Absolute values of numbers compare as those of their counts. -/
lemma Counts.absLe (left : a.Counts m) (right : b.Counts n) (le : m.natAbs ≤ n.natAbs) : a.AbsLe b :=
  .finite left.hasValue right.hasValue (abs_div_unitsPerOne_le_iff.mpr le)

/-- A number is a multiple of another exactly when its count is. -/
lemma Counts.multipleOf_iff (left : a.Counts m) (right : b.Counts n) : a.MultipleOf b ↔ n ∣ m := by
  constructor
  · intro multiple
    cases multiple with
    | infinite _ =>
      obtain ⟨s, k, same, -⟩ := right
      cases same
    | finite k dividend divisor same =>
      obtain ⟨_, counts, rfl⟩ := dividend
      obtain ⟨_, counts', rfl⟩ := divisor
      cases left.unique counts
      cases right.unique counts'
      rw [← mul_div_assoc, div_left_inj' unitsPerOne_rat_pos.ne'] at same
      have whole : m = k * n := by exact_mod_cast same
      exact ⟨k, by rw [whole, Int.mul_comm]⟩
  · rintro ⟨k, rfl⟩
    refine .finite k left.hasValue right.hasValue ?_
    push_cast
    ring

/-- Only the zeros are multiples of an infinity. -/
lemma multipleOf_infinite_iff {s : Sign} : a.MultipleOf (infinite s) ↔ a.isZero = true := by
  rw [← hasValue_zero_iff]
  constructor
  · intro multiple
    cases multiple with
    | infinite zero => exact zero
    | finite _ _ divisor _ => exact absurd divisor not_hasValue_infinite
  · exact .infinite

/-! ## The remainder of numbers -/

/-- The number is the remainder of the floored division of two numbers: it has the sign of the divisor and is not
greater, it is zero for multiples of the divisor, and no finite number is closer to the exact remainder. -/
structure FlooredRemainder (a b r : Binary64) : Prop where
  ne_nan : r ≠ nan
  sign : r.sign = b.sign
  absLe : r.AbsLe b
  isZero_iff : r.isZero = true ↔ a.MultipleOf b
  isNearest : ∀ x y, a.HasValue x → b.HasValue y → r.IsNearest (x - y * ⌊x / y⌋)

/-- The exact remainder, in units. -/
lemma sub_mul_floor_eq (m n : ℤ) :
    (m : ℚ) / unitsPerOne - n / unitsPerOne * ⌊(m : ℚ) / unitsPerOne / (n / unitsPerOne)⌋ =
      m.fmod n / unitsPerOne := by
  rw [div_div_div_cancel_right₀ unitsPerOne_rat_pos.ne', floor_div_eq_fdiv, Int.fmod_def]
  push_cast
  ring

namespace FlooredRemainder

section

variable {r : Binary64} {k : ℤ} (left : a.Counts m) (right : b.Counts n)

include left right

/-- A finite remainder is a floored one when its count, its sign and its nearness are right. -/
lemma of_counts (counts : r.Counts k) (sign : r.sign = b.sign) (le : k.natAbs ≤ n.natAbs) (isZero : k = 0 ↔ n ∣ m)
    (nearest : r.IsNearest (m.fmod n / unitsPerOne)) : FlooredRemainder a b r where
  ne_nan := counts.ne_nan
  sign := sign
  absLe := counts.absLe right le
  isZero_iff := by rw [counts.isZero_iff, isZero, left.multipleOf_iff right]
  isNearest := by
    rintro x y ⟨_, dividend, rfl⟩ ⟨_, divisor, rfl⟩
    cases left.unique dividend
    cases right.unique divisor
    rw [sub_mul_floor_eq]
    exact nearest

/-- A finite divisor other than zero leaves a remainder. -/
lemma mod_finite (nonzero : n ≠ 0) : FlooredRemainder a b (a.mod b) := by
  by_cases dvd : n ∣ m
  · have nothingRemains : m.fmod n = 0 := Int.fmod_eq_zero_of_dvd dvd
    rw [mod_of_dvd left right nonzero dvd]
    refine of_counts left right (counts_zero b.sign) (sign_ofUnits _ _ _) (Nat.zero_le _) (iff_of_true rfl dvd) ?_
    rw [nothingRemains]
    exact (counts_zero b.sign).hasValue.isNearest
  · obtain ⟨r, pos, le, counts, nearest⟩ := counts_mod_of_not_dvd left right nonzero dvd
    have remains : (Sign.ofInt n).apply r ≠ 0 := by
      rw [← Int.natAbs_ne_zero, Sign.natAbs_apply]
      exact pos.ne'
    refine of_counts left right counts ?_ ?_ (iff_of_false remains dvd) nearest
    · rw [counts.sign_eq remains, Sign.ofInt_apply _ pos, right.sign_eq nonzero]
    · rwa [Sign.natAbs_apply]

end

section

variable {s t : Sign} {k : Magnitude}

/-- Of the infinities the one with a minus is below zero. -/
lemma isNegative_infinite : (infinite t).isNegative = true ↔ t = .minus := by
  obtain ⟨u, z, same, -⟩ := counts_zero .plus
  rw [isNegative, same]
  exact decide_eq_true_iff

/-- The remainder by an infinity is corrected exactly when the signs differ. -/
lemma overshoots_infinite_iff (nonzero : k.units ≠ 0) : overshoots (finite s k) (infinite t) = true ↔ s ≠ t := by
  have counts := counts_finite s k
  have notZero : (finite s k).isZero = false := decide_eq_false nonzero
  have negative : (finite s k).isNegative = true ↔ s = .minus := by
    rw [counts.isNegative_iff]
    cases s with
    | plus => simp [Sign.apply]
    | minus => simpa [Sign.apply] using Nat.pos_of_ne_zero nonzero
  have same : (finite s k).rem (infinite t) = finite s k := rfl
  rw [overshoots, same, notZero, Bool.not_false, Bool.true_and, bne_iff_ne, ne_eq, Bool.eq_iff_iff, negative,
    isNegative_infinite]
  cases s <;> cases t <;> decide

/-- An infinite divisor leaves the number where the signs agree, and itself where they do not. -/
lemma mod_infinite_eq (s t : Sign) (k : Magnitude) : (finite s k).mod (infinite t) =
    if k.units = 0 then zero t else if s = t then finite s k else infinite t := by
  have same : (finite s k).rem (infinite t) = finite s k := rfl
  by_cases noUnits : k.units = 0
  · have zero : (finite s k).isZero = true := decide_eq_true noUnits
    rw [mod, same, if_pos zero, if_pos noUnits]
    rfl
  · have notZero : ¬ (finite s k).isZero = true := mt of_decide_eq_true noUnits
    rw [mod, same, if_neg notZero, if_neg noUnits]
    by_cases signs : s = t
    · rw [if_neg fun overshoots => (overshoots_infinite_iff noUnits).mp overshoots signs, if_pos signs]
    · rw [if_pos ((overshoots_infinite_iff noUnits).mpr signs), if_neg signs]
      rfl

/-- A remainder by an infinity is a floored one when its sign and its zeros are right. -/
lemma of_infinite {r : Binary64} (notNan : r ≠ nan) (sign : r.sign = t) (isZero : r.isZero = true ↔ a.isZero = true) :
    FlooredRemainder a (infinite t) r where
  ne_nan := notNan
  sign := sign
  absLe := .infinite notNan
  isZero_iff := isZero.trans multipleOf_infinite_iff.symm
  isNearest := fun _ _ _ divisor => absurd divisor not_hasValue_infinite

/-- An infinite divisor leaves a remainder. -/
lemma mod_infinite (s t : Sign) (k : Magnitude) :
    FlooredRemainder (finite s k) (infinite t) ((finite s k).mod (infinite t)) := by
  rw [mod_infinite_eq]
  split
  · rename_i none
    have zero : (zero t).isZero = true := (counts_zero t).isZero_iff.mpr rfl
    exact of_infinite (counts_zero t).ne_nan (sign_ofUnits t 0 1) (iff_of_true zero (decide_eq_true none))
  · rename_i nonzero
    split
    · rename_i signs
      exact of_infinite nofun signs Iff.rfl
    · exact of_infinite nofun rfl (iff_of_false nofun (mt of_decide_eq_true nonzero))

end

end FlooredRemainder

/-- The remainder of a finite number by a number that is no zero has the sign of the divisor and is not greater; it is
zero for multiples of the divisor only, and what is nearest to the exact remainder of finite numbers. -/
theorem mod_flooredRemainder {a b : Binary64} (isFinite : a.isFinite = true) (notNan : b ≠ nan)
    (nonzero : b.isZero = false) : FlooredRemainder a b (a.mod b) := by
  cases a with
  | nan => cases isFinite
  | infinite s => cases isFinite
  | finite s k =>
    have left := counts_finite s k
    cases b with
    | nan => exact absurd rfl notNan
    | infinite t => exact .mod_infinite s t k
    | finite t l =>
      have right := counts_finite t l
      refine .mod_finite left right fun zero => ?_
      rw [right.isZero_iff.mpr zero] at nonzero
      cases nonzero

/-- The remainder of the least number below zero by one is one, which is what is nearest to it. -/
theorem mod_flooredRemainder_of_least :
    let least := ofUnits .minus 1 1
    FlooredRemainder least one one ∧ FlooredRemainder least (infinite .plus) (infinite .plus) := by
  intro least
  have finite : least.isFinite = true := by decide +kernel
  have byOne := mod_flooredRemainder (b := one) finite (by decide +kernel) (by decide +kernel)
  have byInfinite := mod_flooredRemainder (b := infinite .plus) finite nofun rfl
  have one_eq : least.mod one = one := by decide +kernel
  have infinite_eq : least.mod (infinite .plus) = infinite .plus := by decide +kernel
  rw [one_eq] at byOne
  rw [infinite_eq] at byInfinite
  exact ⟨byOne, byInfinite⟩

end Calculator.Binary64
