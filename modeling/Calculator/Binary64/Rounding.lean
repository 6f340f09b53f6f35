/-!
# Rounding to binary64 precision

Magnitudes are measured in units of 2 ^ -1074, the smallest positive binary64 number, so that every finite
magnitude is a natural number. Such a number is representable when it has at most 53 significant bits: it
is a multiple of the spacing `2 ^ (log2 - 52)` of its binade. `roundUnits num den` rounds the exact
quotient `num / den` to the nearest representable number, a tie going to the even neighbour.

Main statements: the result is representable (`representable_roundUnits`), and an exact representable
number is left as it is (`roundUnits_mul_self`).
-/

namespace Calculator

-- Powers of natural numbers are always taken through the instance of the core library.
attribute [scoped instance (2000)] instPowNat

namespace Binary64

/-- The number of bits that a significand has below its leading one. -/
def fractionBits : Nat :=
  52

/-- The distance between neighbouring 53-bit numbers in the binade of `units`. -/
def spacing (units : Nat) : Nat :=
  2 ^ (units.log2 - fractionBits)

/-- A number of units is representable when it is a multiple of the spacing of its binade. -/
def Representable (units : Nat) : Prop :=
  spacing units ∣ units

/-- Whether a number is representable is decided by division. -/
instance (units : Nat) : Decidable (Representable units) :=
  inferInstanceAs (Decidable (_ ∣ _))

/-- The integer nearest to `num / den`, a tie going to the even one. -/
def nearest (num den : Nat) : Nat :=
  let below := num / den
  let twice := 2 * (num % den)
  if twice < den then below
  else if den < twice then below + 1
  else below + below % 2

/-- The representable number nearest to `num / den`, a tie going to the even multiple of the spacing. -/
def roundUnits (num den : Nat) : Nat :=
  nearest num (den * spacing (num / den)) * spacing (num / den)

/-- The nearest integer is the quotient or its successor. -/
theorem nearest_le (num den : Nat) : nearest num den ≤ num / den + 1 := by
  simp only [nearest]
  split
  · omega
  · split
    · omega
    · omega

/-- An exact quotient is its own nearest integer. -/
theorem nearest_mul_right (n : Nat) {den : Nat} (pos : 0 < den) : nearest (n * den) den = n := by
  simp [nearest, Nat.mul_div_cancel n pos, pos]

/-- A number with at most 53 bits stays representable when it is scaled by a power of two. -/
theorem representable_mul_two_pow {n : Nat} (bound : n ≤ 2 ^ (fractionBits + 1)) (s : Nat) :
    Representable (n * 2 ^ s) := by
  unfold Representable spacing
  simp only [fractionBits] at bound ⊢
  by_cases zero : n = 0
  · simp [zero]
  have pos : 0 < 2 ^ s := Nat.two_pow_pos s
  have ne : n * 2 ^ s ≠ 0 := Nat.mul_ne_zero zero (by omega)
  by_cases full : n = 2 ^ 53
  · have le : (n * 2 ^ s).log2 < 54 + s := by
      rw [Nat.log2_lt ne, full, ← Nat.pow_add]
      exact Nat.pow_lt_pow_right (by decide) (by omega)
    rw [full, ← Nat.pow_add] at le ⊢
    exact Nat.pow_dvd_pow 2 (by omega)
  · have lt : n * 2 ^ s < 2 ^ (53 + s) := by
      rw [Nat.pow_add]
      exact Nat.mul_lt_mul_of_pos_right (by omega) pos
    have le : (n * 2 ^ s).log2 < 53 + s := (Nat.log2_lt ne).mpr lt
    exact Nat.dvd_trans (Nat.pow_dvd_pow 2 (by omega)) (Nat.dvd_mul_left _ _)

/-- A number divided by the spacing of its binade keeps fewer than 54 bits. -/
theorem div_spacing_lt (units : Nat) : units / spacing units < 2 ^ (fractionBits + 1) := by
  unfold spacing fractionBits
  rw [Nat.div_lt_iff_lt_mul (Nat.two_pow_pos _), ← Nat.pow_add]
  exact Nat.lt_of_lt_of_le Nat.lt_log2_self (Nat.pow_le_pow_right (by decide) (by omega))

/-- The rounded number is representable. -/
theorem representable_roundUnits (num den : Nat) : Representable (roundUnits num den) := by
  refine representable_mul_two_pow ?_ _
  have le := nearest_le num (den * spacing (num / den))
  have lt := div_spacing_lt (num / den)
  rw [Nat.div_div_eq_div_mul] at lt
  omega

/-- A representable number is not changed by rounding. -/
theorem roundUnits_mul_self {units den : Nat} (pos : 0 < den) (fits : Representable units) :
    roundUnits (units * den) den = units := by
  obtain ⟨k, eq⟩ := fits
  have spacePos : 0 < spacing units := Nat.two_pow_pos _
  have quot : units * den / den = units := Nat.mul_div_cancel units pos
  have scaled : units * den = k * (den * spacing units) := by
    calc units * den = spacing units * k * den := by rw [← eq]
      _ = k * (den * spacing units) := by ac_rfl
  unfold roundUnits
  rw [quot, scaled, nearest_mul_right k (Nat.mul_pos pos spacePos), Nat.mul_comm, ← eq]

end Binary64

end Calculator
