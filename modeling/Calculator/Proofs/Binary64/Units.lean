import Mathlib.Tactic.FieldSimp
import Mathlib.Data.Rat.Floor
import Calculator.Binary64.FloorDivision
import Calculator.Proofs.Binary64.Nearest

/-!
# Numbers as counts of units

A finite number counts a signed number of units, and every operation on finite numbers is one on these integers,
rounded where the integer does not fit (`Fits`). Each lemma tells what an operation counts: sums and differences that
fit are exact, and the remainder, the floor and an exact quotient always are. Divided by the units of one, the count
is the value of the number (`HasValue`); the multiples of a power of two are values as long as they have 53 bits
(`exists_hasValue_div_two_pow`). Main statement: no finite number is closer to what was rounded
(`isNearest_ofUnits_div`).
-/

namespace Calculator

/-- A sign leaves the absolute value as it is. -/
lemma Sign.natAbs_apply (s : Sign) (n : Nat) : (s.apply n).natAbs = n := by
  cases s <;> simp [apply]

/-- A sign is that of every positive number behind it. -/
lemma Sign.ofInt_apply (s : Sign) {n : Nat} (pos : 0 < n) : ofInt (s.apply n) = s := by
  cases s with
  | plus => exact if_neg (show ¬ (n : ℤ) < 0 by omega)
  | minus => exact if_pos (show -(n : ℤ) < 0 by omega)

/-- A sign leaves the absolute value of the rational as it is. -/
lemma Sign.abs_apply (s : Sign) (n : Nat) : |((s.apply n : ℤ) : ℚ)| = n := by
  rw [← Int.cast_abs, Int.abs_eq_natAbs, s.natAbs_apply, Int.cast_natCast]

/-- Numbers behind one sign are as far from each other as they are without it. -/
lemma Sign.abs_apply_mul_sub_apply (s : Sign) (j k : Nat) (d : ℚ) :
    |((s.apply j : ℤ) : ℚ) * d - (s.apply k : ℤ)| = |(j : ℚ) * d - k| := by
  cases s with
  | plus => simp only [apply, Int.cast_natCast]
  | minus =>
    simp only [apply, Int.cast_neg, Int.cast_natCast]
    rw [neg_mul, neg_sub_neg, abs_sub_comm]

namespace Binary64

/-- The number is finite and counts so many units, with its sign. -/
def Counts (v : Binary64) (n : ℤ) : Prop :=
  ∃ s m, v = finite s m ∧ s.apply m.units = n

/-- There is a finite number that counts so many units. -/
def Fits (n : ℤ) : Prop :=
  Representable n.natAbs ∧ n.natAbs < overflowUnits

variable {a b v : Binary64} {m n : ℤ}

/-- One has units. -/
lemma unitsPerOne_pos : 0 < unitsPerOne :=
  Nat.two_pow_pos unitPlaces

/-- The units of one are a positive integer. -/
lemma unitsPerOne_int_pos : (0 : ℤ) < unitsPerOne := by
  exact_mod_cast unitsPerOne_pos

/-- The binary places up to 1074 are places of the unit. -/
lemma le_unitPlaces {j : Nat} (small : j ≤ 1074) : j ≤ unitPlaces := by
  rwa [unitPlaces_eq]

/-- A finite number counts the units of its magnitude, with its sign. -/
lemma counts_finite (s : Sign) (k : Magnitude) : (finite s k).Counts (s.apply k.units) :=
  ⟨s, k, rfl, rfl⟩

/-- A finite number has a count. -/
lemma exists_counts_of_isFinite (finite : v.isFinite = true) : ∃ n : ℤ, v.Counts n := by
  cases v with
  | nan => cases finite
  | infinite s => cases finite
  | finite s k => exact ⟨_, counts_finite s k⟩

/-- A count other than zero has a positive magnitude. -/
lemma units_pos {s : Sign} {k : Magnitude} (nonzero : s.apply k.units ≠ 0) : 0 < k.units := by
  rw [Nat.pos_iff_ne_zero, ← s.natAbs_apply k.units]
  exact Int.natAbs_ne_zero.mpr nonzero

/-- Rounding a count that fits changes nothing. -/
lemma counts_ofUnits {s : Sign} {units : Nat} (same : s.apply units = n) (fits : Fits n) :
    (ofUnits s units 1).Counts n := by
  have abs : n.natAbs = units := by rw [← same, s.natAbs_apply]
  rw [Fits, abs] at fits
  exact ⟨s, ⟨units, fits.1, fits.2⟩, ofUnits_self s ⟨units, fits.1, fits.2⟩, same⟩

/-- Rounding keeps the sign. -/
lemma sign_ofUnits (s : Sign) (num den : Nat) : (ofUnits s num den).sign = s := by
  unfold ofUnits
  split <;> rfl

/-- Zero fits. -/
lemma fits_zero : Fits 0 :=
  ⟨Nat.dvd_zero _, Nat.two_pow_pos _⟩

/-- The zeros count zero units. -/
lemma counts_zero (s : Sign) : (zero s).Counts 0 :=
  counts_ofUnits (by cases s <;> rfl) fits_zero

namespace Counts

/-- A count fits. -/
lemma fits (counts : v.Counts n) : Fits n := by
  obtain ⟨s, k, rfl, rfl⟩ := counts
  rw [Fits, s.natAbs_apply]
  exact ⟨k.representable, k.bounded⟩

/-- A number has one count. -/
lemma unique (first : v.Counts m) (second : v.Counts n) : m = n := by
  obtain ⟨s, k, rfl, rfl⟩ := first
  obtain ⟨t, l, same, rfl⟩ := second
  cases same
  rfl

/-- What has a count is a number. -/
lemma ne_nan (counts : v.Counts n) : v ≠ nan := by
  rintro rfl
  obtain ⟨s, k, same, -⟩ := counts
  cases same

/-- The zeros are what counts zero units. -/
lemma isZero_iff (counts : v.Counts n) : v.isZero = true ↔ n = 0 := by
  obtain ⟨s, k, rfl, rfl⟩ := counts
  rw [isZero, decide_eq_true_eq, ← Int.natAbs_eq_zero, s.natAbs_apply]

/-- Numbers are ordered as their counts are. -/
lemma lt_iff (left : a.Counts m) (right : b.Counts n) : a.lt b = true ↔ m < n := by
  obtain ⟨s, k, rfl, rfl⟩ := left
  obtain ⟨t, l, rfl, rfl⟩ := right
  exact decide_eq_true_iff

/-- A number is below zero exactly when its count is. -/
lemma isNegative_iff (counts : v.Counts n) : v.isNegative = true ↔ n < 0 :=
  counts.lt_iff (counts_zero .plus)

/-- A number other than zero is told by its count. -/
lemma eq_ofUnits (counts : v.Counts n) (nonzero : n ≠ 0) : v = ofUnits (Sign.ofInt n) n.natAbs 1 := by
  obtain ⟨s, k, rfl, rfl⟩ := counts
  have pos := units_pos nonzero
  rw [s.ofInt_apply pos, s.natAbs_apply, ofUnits_self]

/-- The sign of a number other than zero is that of its count. -/
lemma sign_eq (counts : v.Counts n) (nonzero : n ≠ 0) : v.sign = Sign.ofInt n := by
  obtain ⟨s, k, rfl, rfl⟩ := counts
  exact (s.ofInt_apply (units_pos nonzero)).symm

/-! ## Operations -/

/-- The negative of a number counts the negative. -/
lemma neg (counts : v.Counts n) : v.neg.Counts (-n) := by
  obtain ⟨s, k, rfl, rfl⟩ := counts
  exact ⟨s.opposite, k, rfl, s.apply_opposite k.units⟩

/-- A sum other than zero is rounded once. -/
lemma add_eq_ofUnits (left : a.Counts m) (right : b.Counts n) (nonzero : m + n ≠ 0) :
    a.add b = ofUnits (Sign.ofInt (m + n)) (m + n).natAbs 1 := by
  obtain ⟨s, k, rfl, rfl⟩ := left
  obtain ⟨t, l, rfl, rfl⟩ := right
  exact if_neg nonzero

/-- A sum that fits is exact. -/
lemma add (left : a.Counts m) (right : b.Counts n) (fits : Fits (m + n)) : (a.add b).Counts (m + n) := by
  by_cases cancels : m + n = 0
  · obtain ⟨s, k, rfl, rfl⟩ := left
    obtain ⟨t, l, rfl, rfl⟩ := right
    have zero : Binary64.add (finite s k) (finite t l) = Binary64.zero (if s = t then s else .plus) := if_pos cancels
    rw [zero, cancels]
    exact counts_zero _
  · rw [left.add_eq_ofUnits right cancels]
    exact counts_ofUnits (Sign.apply_ofInt_natAbs _) fits

/-- A difference that fits is exact. -/
lemma sub (left : a.Counts m) (right : b.Counts n) (fits : Fits (m - n)) : (a.sub b).Counts (m - n) := by
  rw [Int.sub_eq_add_neg] at fits ⊢
  exact left.add right.neg fits

end Counts

/-- The remainder of representable numbers is representable: the spacing of its binade divides both. -/
lemma Representable.mod {k l : Nat} (left : Representable k) (right : Representable l) (pos : 0 < l) :
    Representable (k % l) := by
  have dvd {c : Nat} (le : k % l ≤ c) (fits : Representable c) : spacing (k % l) ∣ c := by
    by_contra off
    have less := lt_two_pow_log2 fits off
    rcases Nat.eq_zero_or_pos (k % l) with nothingRemains | remains
    · rw [nothingRemains] at off
      exact off (Nat.one_dvd c)
    · have begins := Nat.log2_self_le remains.ne'
      omega
  have dvdLeft := dvd (Nat.mod_le k l) left
  have dvdRight := dvd (Nat.mod_lt k pos).le right
  exact (Nat.dvd_mod_iff dvdRight).mpr dvdLeft

namespace Counts

/-- The remainder is exact. -/
lemma rem (left : a.Counts m) (right : b.Counts n) (nonzero : n ≠ 0) : (a.rem b).Counts (m.tmod n) := by
  obtain ⟨s, k, rfl, rfl⟩ := left
  obtain ⟨t, l, rfl, rfl⟩ := right
  have pos := units_pos nonzero
  have same : s.apply (k.units % l.units) = (s.apply k.units).tmod (t.apply l.units) := by
    have unsigned : ((k.units % l.units : ℕ) : ℤ) = (k.units : ℤ).tmod l.units := rfl
    cases s <;> cases t <;> simp only [Sign.apply, Int.neg_tmod, Int.tmod_neg, unsigned]
  have less : k.units % l.units < overflowUnits := Nat.lt_of_le_of_lt (Nat.mod_le _ _) k.bounded
  rw [Binary64.rem, if_neg pos.ne']
  refine counts_ofUnits same ⟨?_, ?_⟩
  · rw [← same, s.natAbs_apply]
    exact k.representable.mod l.representable pos
  · rw [← same, s.natAbs_apply]
    exact less

/-- A quotient that fits is exact. -/
lemma div {q : ℤ} (left : a.Counts m) (right : b.Counts n) (nonzero : n ≠ 0) (exact : m * unitsPerOne = q * n)
    (fits : Fits q) : (a.div b).Counts q := by
  obtain ⟨s, k, rfl, rfl⟩ := left
  obtain ⟨t, l, rfl, rfl⟩ := right
  have pos := units_pos nonzero
  have scaled : k.units * unitsPerOne = q.natAbs * l.units := by
    have abs := congrArg Int.natAbs exact
    rwa [Int.natAbs_mul, Int.natAbs_mul, s.natAbs_apply, t.natAbs_apply, Int.natAbs_natCast] at abs
  have signed : (s.mul t).apply q.natAbs = q := by
    have cancel : t.apply l.units * (s.mul t).apply q.natAbs = t.apply l.units * q := by
      have scaled : (k.units : ℤ) * unitsPerOne = (q.natAbs : ℕ) * l.units := by exact_mod_cast scaled
      rw [Int.mul_comm _ q, ← exact]
      generalize q.natAbs = c at scaled ⊢
      cases s <;> cases t <;> simp [Sign.mul, Sign.apply] <;> linarith
    exact Int.eq_of_mul_eq_mul_left nonzero cancel
  rw [Binary64.div, if_neg pos.ne', scaled]
  exact ⟨s.mul t, ⟨q.natAbs, fits.1, fits.2⟩, ofUnits_mul_self _ ⟨q.natAbs, fits.1, fits.2⟩ pos, signed⟩

end Counts

/-! ## Integers -/

/-- A number that is not below 2 ^ 53 is an integer. -/
lemma unitsPerOne_dvd {k : Nat} (fits : Representable k) (large : 2 ^ (fractionBits + 1) * unitsPerOne ≤ k) :
    unitsPerOne ∣ k := by
  have nonzero : k ≠ 0 := by
    have pos : 0 < 2 ^ (fractionBits + 1) * unitsPerOne := Nat.mul_pos (Nat.two_pow_pos _) unitsPerOne_pos
    omega
  rw [unitsPerOne, ← Nat.pow_add] at large
  have bits : fractionBits + 1 + unitPlaces ≤ k.log2 := (Nat.le_log2 nonzero).mpr large
  exact Nat.dvd_trans (Nat.pow_dvd_pow 2 (by omega)) fits

/-- A count of at most 53 bits before a run of zeros fits, unless it is above the units of 2 ^ 53. -/
lemma fits_mul_two_pow {k : ℤ} {s : Nat} (bound : k.natAbs ≤ 2 ^ (fractionBits + 1)) (small : s ≤ unitPlaces) :
    Fits (k * (2 ^ s : Nat)) := by
  rw [Fits, Int.natAbs_mul, Int.natAbs_natCast]
  refine ⟨representable_mul_two_pow bound s, ?_⟩
  calc k.natAbs * 2 ^ s ≤ 2 ^ (fractionBits + 1) * 2 ^ unitPlaces :=
        Nat.mul_le_mul bound (Nat.pow_le_pow_right (by decide) small)
    _ < 2 ^ 1024 * 2 ^ unitPlaces :=
      Nat.mul_lt_mul_of_pos_right (Nat.pow_lt_pow_right (by decide) (by decide)) (Nat.two_pow_pos _)
    _ = overflowUnits := by rw [overflowUnits, Nat.pow_add]

/-- An integer up to 2 ^ 53 is a number. -/
lemma fits_mul_unitsPerOne {k : ℤ} (bound : k.natAbs ≤ 2 ^ (fractionBits + 1)) : Fits (k * unitsPerOne) :=
  fits_mul_two_pow bound (Nat.le_refl unitPlaces)

/-- The integer below a number is a number. -/
lemma Fits.floor (fits : Fits n) : Fits (n / unitsPerOne * unitsPerOne) := by
  have pos := unitsPerOne_int_pos
  by_cases large : 2 ^ (fractionBits + 1) * unitsPerOne ≤ n.natAbs
  · rwa [Int.ediv_mul_cancel (Int.natCast_dvd.mpr (unitsPerOne_dvd fits.1 large))]
  · refine fits_mul_unitsPerOne ?_
    generalize 2 ^ (fractionBits + 1) = bound at large ⊢
    have above : -(bound : ℤ) ≤ n / unitsPerOne := by
      rw [Int.le_ediv_iff_mul_le pos, Int.neg_mul]
      have small : n.natAbs < bound * unitsPerOne := Nat.lt_of_not_le large
      zify at small
      exact (neg_le_neg small.le).trans (neg_abs_le n)
    have below : n / unitsPerOne < bound := by
      rw [Int.ediv_lt_iff_lt_mul pos]
      have small : n.natAbs < bound * unitsPerOne := Nat.lt_of_not_le large
      zify at small
      exact (le_abs_self n).trans_lt small
    omega

/-- The negative of a count rounded up is its negative rounded down. -/
lemma neg_ceil_div (k : Nat) {d : Nat} (pos : 0 < d) : -(((k + (d - 1)) / d : ℕ) : ℤ) = -(k : ℤ) / d := by
  have split := Nat.div_add_mod (k + (d - 1)) d
  have small := Nat.mod_lt (k + (d - 1)) pos
  generalize (k + (d - 1)) / d = c at split ⊢
  generalize (k + (d - 1)) % d = r at split small
  refine ((Int.ediv_emod_unique (r := (d : ℤ) - 1 - r) (by exact_mod_cast pos)).mpr ⟨?_, ?_, ?_⟩).1.symm
  · have split : (d : ℤ) * c + r = k + (d - 1) := by
      rw [← Nat.cast_pred pos]
      exact_mod_cast split
    rw [Int.mul_neg]
    linarith
  · omega
  · omega

namespace Counts

/-- The floor is exact. -/
lemma floor (counts : v.Counts n) : v.floor.Counts (n / unitsPerOne * unitsPerOne) := by
  have fits := counts.fits.floor
  obtain ⟨s, k, rfl, rfl⟩ := counts
  cases s with
  | plus => exact counts_ofUnits (by simp [Sign.apply]) fits
  | minus =>
    refine counts_ofUnits ?_ fits
    have down := neg_ceil_div k.units unitsPerOne_pos
    simp only [Sign.apply] at down ⊢
    rw [← down]
    push_cast
    ring

end Counts

/-! ## Values -/

/-- The number is finite, and the rational is its exact value. -/
def HasValue (v : Binary64) (q : ℚ) : Prop :=
  ∃ n : ℤ, v.Counts n ∧ q = n / unitsPerOne

/-- The number is finite, and no finite number is closer to the rational. -/
def IsNearest (v : Binary64) (q : ℚ) : Prop :=
  ∃ w, v.HasValue w ∧ ∀ u z, HasValue u z → |w - q| ≤ |z - q|

/-- The units of one are a positive rational. -/
lemma unitsPerOne_rat_pos : (0 : ℚ) < unitsPerOne := by
  exact_mod_cast unitsPerOne_pos

/-- The value of a number is its count over the units of one. -/
lemma Counts.hasValue (counts : v.Counts n) : v.HasValue (n / unitsPerOne) :=
  ⟨n, counts, rfl⟩

/-- A number counts its value in units. -/
lemma HasValue.counts (value : v.HasValue (n / unitsPerOne)) : v.Counts n := by
  obtain ⟨k, counts, same⟩ := value
  have eq : n = k := by exact_mod_cast (div_left_inj' unitsPerOne_rat_pos.ne').mp same
  exact eq ▸ counts

/-- A number has one value. -/
lemma HasValue.unique {x y : ℚ} (first : v.HasValue x) (second : v.HasValue y) : x = y := by
  obtain ⟨m, counts, rfl⟩ := first
  obtain ⟨n, counts', rfl⟩ := second
  rw [counts.unique counts']

/-- Absolute values compare as those of the counts. -/
lemma abs_div_unitsPerOne_le_iff :
    |(m : ℚ) / unitsPerOne| ≤ |(n : ℚ) / unitsPerOne| ↔ m.natAbs ≤ n.natAbs := by
  rw [abs_div, abs_div, abs_of_pos unitsPerOne_rat_pos, div_le_div_iff_of_pos_right unitsPerOne_rat_pos,
    ← Int.cast_abs, ← Int.cast_abs, Int.cast_le, Int.abs_eq_natAbs, Int.abs_eq_natAbs, Int.ofNat_le]

/-- A number is nearest to its own value. -/
lemma HasValue.isNearest {q : ℚ} (value : v.HasValue q) : v.IsNearest q := by
  refine ⟨q, value, fun u z _ => ?_⟩
  rw [sub_self, abs_zero]
  exact abs_nonneg _

/-- The multiples of 2 ^ -j are told by the multiples of as many units. -/
lemma hasValue_div_two_pow_iff {k : ℤ} {j : Nat} (places : j ≤ unitPlaces) :
    v.HasValue (k / 2 ^ j) ↔ v.Counts (k * (2 ^ (unitPlaces - j) : Nat)) := by
  have split : (unitsPerOne : ℚ) = 2 ^ j * 2 ^ (unitPlaces - j) := by
    rw [unitsPerOne, ← pow_add, Nat.add_sub_cancel' places, Nat.cast_pow, Nat.cast_ofNat]
  have same : (k : ℚ) / 2 ^ j = (k * (2 ^ (unitPlaces - j) : Nat) : ℤ) / unitsPerOne := by
    rw [split, Int.cast_mul, Int.cast_natCast, Nat.cast_pow, Nat.cast_ofNat]
    exact (mul_div_mul_right _ _ (by positivity)).symm
  rw [same]
  exact ⟨HasValue.counts, Counts.hasValue⟩

/-- A number is an integer when it counts as many times the units of one. -/
lemma hasValue_intCast_iff {k : ℤ} : v.HasValue k ↔ v.Counts (k * unitsPerOne) := by
  have whole := hasValue_div_two_pow_iff (v := v) (k := k) (Nat.zero_le _)
  rwa [pow_zero, div_one] at whole

/-- The multiples of 2 ^ -j up to 2 ^ (53 - j) are numbers. -/
lemma exists_hasValue_div_two_pow {k : ℤ} {j : Nat} (places : j ≤ unitPlaces) (bound : |k| ≤ 2 ^ 53) :
    ∃ v : Binary64, v.HasValue (k / 2 ^ j) := by
  have fits : Fits (k * (2 ^ (unitPlaces - j) : Nat)) := by
    refine fits_mul_two_pow ?_ (Nat.sub_le _ _)
    rw [Int.abs_eq_natAbs] at bound
    exact_mod_cast bound
  exact ⟨_, (hasValue_div_two_pow_iff places).mpr (counts_ofUnits (Sign.apply_ofInt_natAbs _) fits)⟩

/-- The integers up to 2 ^ 53 are numbers. -/
lemma exists_hasValue {k : ℤ} (bound : |k| ≤ 2 ^ 53) : ∃ v : Binary64, v.HasValue k := by
  obtain ⟨v, value⟩ := exists_hasValue_div_two_pow (Nat.zero_le _) bound
  rw [pow_zero, div_one] at value
  exact ⟨v, value⟩

/-- Numbers are ordered as their values are. -/
lemma HasValue.lt_iff {x y : ℚ} (left : a.HasValue x) (right : b.HasValue y) : a.lt b = true ↔ x < y := by
  obtain ⟨m, left, rfl⟩ := left
  obtain ⟨n, right, rfl⟩ := right
  rw [left.lt_iff right, div_lt_div_iff_of_pos_right unitsPerOne_rat_pos, Int.cast_lt]

/-- The negative of a number has the negative value. -/
lemma HasValue.neg {q : ℚ} (value : v.HasValue q) : v.neg.HasValue (-q) := by
  obtain ⟨n, counts, rfl⟩ := value
  rw [← neg_div, ← Int.cast_neg]
  exact counts.neg.hasValue

/-- The floor is exact. -/
lemma HasValue.floor {q : ℚ} (value : v.HasValue q) : v.floor.HasValue ⌊q⌋ := by
  obtain ⟨n, counts, rfl⟩ := value
  rw [hasValue_intCast_iff, Rat.floor_intCast_div_natCast]
  exact counts.floor

/-- The numbers of value zero are the zeros. -/
lemma hasValue_zero_iff : v.HasValue 0 ↔ v.isZero = true := by
  constructor
  · rintro ⟨n, counts, same⟩
    rw [counts.isZero_iff]
    exact_mod_cast (div_eq_zero_iff.mp same.symm).resolve_right unitsPerOne_rat_pos.ne'
  · intro zero
    cases v with
    | nan => cases zero
    | infinite s => cases zero
    | finite s k =>
      have counts := counts_finite s k
      have value := counts.hasValue
      rwa [counts.isZero_iff.mp zero, Int.cast_zero, zero_div] at value

/-- An infinity has no value. -/
lemma not_hasValue_infinite {s : Sign} {q : ℚ} : ¬ (infinite s).HasValue q := by
  rintro ⟨n, ⟨t, k, same, -⟩, -⟩
  cases same

/-- Rounding a quotient of counts gives the number that is nearest to it. -/
lemma isNearest_ofUnits_div (s : Sign) (num : Nat) {den : Nat} (pos : 0 < den)
    (bounded : roundUnits num den < overflowUnits) :
    (ofUnits s num den).IsNearest ((s.apply num : ℤ) / (den * unitsPerOne)) := by
  have counts : (ofUnits s num den).Counts (s.apply (roundUnits num den)) := ⟨_, _, dif_pos bounded, rfl⟩
  have positive : (0 : ℚ) < den := by exact_mod_cast pos
  refine ⟨_, counts.hasValue, ?_⟩
  rintro u z ⟨k, other, rfl⟩
  have scaled (i : ℤ) : (i : ℚ) / unitsPerOne - (s.apply num : ℤ) / (den * unitsPerOne) =
      (i * den - (s.apply num : ℤ)) / (den * unitsPerOne) := by
    have unit := unitsPerOne_rat_pos
    field_simp
  rw [scaled, scaled, abs_div, abs_div]
  refine div_le_div_of_nonneg_right ?_ (abs_nonneg _)
  calc |((s.apply (roundUnits num den) : ℤ) : ℚ) * den - (s.apply num : ℤ)|
      = |(roundUnits num den : ℚ) * den - num| := s.abs_apply_mul_sub_apply _ _ _
    _ ≤ |(k.natAbs : ℚ) * den - num| := roundUnits_dist_le num pos other.fits.1
    _ = |(|(k * den : ℚ)| - |((s.apply num : ℤ) : ℚ)|)| := by
        rw [abs_mul, abs_of_pos positive, s.abs_apply, ← Int.cast_abs, Int.abs_eq_natAbs, Int.cast_natCast]
    _ ≤ |(k * den : ℚ) - (s.apply num : ℤ)| := abs_abs_sub_abs_le _ _

/-- Rounding a count gives the number that is nearest to it. -/
lemma isNearest_ofUnits {n : ℤ} (bounded : roundUnits n.natAbs 1 < overflowUnits) :
    (ofUnits (Sign.ofInt n) n.natAbs 1).IsNearest (n / unitsPerOne) := by
  have nearest := isNearest_ofUnits_div (Sign.ofInt n) n.natAbs Nat.one_pos bounded
  rwa [Sign.apply_ofInt_natAbs, Nat.cast_one, one_mul] at nearest

end Binary64

end Calculator
