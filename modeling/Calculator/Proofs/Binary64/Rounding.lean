import Mathlib.Tactic.Lemma
import Calculator.Binary64.Basic

/-!
# What is close rounds to the same number

Rounding depends on the exact quotient alone (`roundUnits_mul_mul`), and a quotient that is off a representable
number by less than the 2 ^ 54th part of it rounds to that number (`Near.roundUnits_eq`): the part is at
most half the spacing on either side, also below a power of two, where the spacing halves.
-/

namespace Calculator.Binary64

/-- The nearest integer depends on the quotient alone. -/
lemma nearest_mul_mul (num den : Nat) {c : Nat} (pos : 0 < c) :
    nearest (num * c) (den * c) = nearest num den := by
  have double : 2 * (num * c % (den * c)) = 2 * (num % den) * c := by
    rw [Nat.mul_mod_mul_right, Nat.mul_assoc]
  simp only [nearest, Nat.mul_div_mul_right _ _ pos, double, Nat.mul_lt_mul_right pos]

/-- The rounded number depends on the quotient alone. -/
lemma roundUnits_mul_mul (num den : Nat) {c : Nat} (pos : 0 < c) :
    roundUnits (num * c) (den * c) = roundUnits num den := by
  unfold roundUnits
  rw [Nat.mul_div_mul_right _ _ pos, Nat.mul_right_comm den c, nearest_mul_mul _ _ pos]

/-- What is less than a half off an integer has it as its nearest integer. -/
lemma nearest_eq {num den c : Nat} (above : 2 * c * den < 2 * num + den)
    (below : 2 * num < (2 * c + 1) * den) : nearest num den = c := by
  have pos : 0 < den := by
    rcases Nat.eq_zero_or_pos den with rfl | pos
    · omega
    · exact pos
  have split := Nat.div_add_mod num den
  have small := Nat.mod_lt num pos
  rw [Nat.mul_assoc] at above
  rw [Nat.add_mul, Nat.mul_assoc, Nat.one_mul] at below
  rw [Nat.mul_comm den] at split
  unfold nearest
  generalize num / den = b at split ⊢
  generalize num % den = r at split small ⊢
  rcases Nat.lt_trichotomy b c with less | rfl | more
  · -- the quotient is one less than the integer, and the remainder more than a half
    obtain ⟨k, rfl⟩ := Nat.exists_eq_add_of_lt less
    rw [Nat.add_mul, Nat.add_mul, Nat.one_mul] at above below
    rcases Nat.eq_zero_or_pos k with rfl | positive
    · have half : den < 2 * r := by omega
      simp only [if_neg (Nat.lt_asymm half), if_pos half, Nat.add_zero]
    · have le : den ≤ k * den := Nat.le_mul_of_pos_left den positive
      omega
  · have half : 2 * r < den := by omega
    simp only [if_pos half]
  · obtain ⟨k, rfl⟩ := Nat.exists_eq_add_of_lt more
    rw [Nat.add_mul, Nat.add_mul, Nat.one_mul] at split
    omega

/-- A number has `nearness` parts, one of which is at most half of the spacing on either side. -/
def nearness : Nat :=
  2 ^ (fractionBits + 2)

/-- The quotient `num / den` is off the number `units` by less than one of its `nearness` parts. -/
structure Near (units num den : Nat) : Prop where
  above : (nearness - 1) * (units * den) < nearness * num
  below : nearness * num < (nearness + 1) * (units * den)

/-- The parts of a number are 2 ^ 54. -/
lemma nearness_eq : nearness = 18014398509481984 :=
  rfl

/-- A number has fewer than 54 bits when it is counted in spacings of its binade. -/
lemma lt_mul_spacing (units : Nat) : units < 2 ^ (fractionBits + 1) * spacing units := by
  have lt := div_spacing_lt units
  rw [Nat.div_lt_iff_lt_mul (show 0 < spacing units from Nat.two_pow_pos _)] at lt
  exact lt

/-- Multiples of the spacing are no closer than the spacing. -/
lemma add_spacing_le {units a b : Nat} (lt : a < b) (dvdA : spacing units ∣ a) (dvdB : spacing units ∣ b) :
    a + spacing units ≤ b := by
  have le := Nat.le_of_dvd (Nat.sub_pos_of_lt lt) (Nat.dvd_sub dvdB dvdA)
  omega

namespace Near

variable {units num den : Nat}

/-- A near quotient is below what is a spacing or more above the number. -/
lemma lt_of_le (near : Near units num den) {bound : Nat} (le : units + spacing units ≤ bound) :
    num < bound * den := by
  have wide := lt_mul_spacing units
  have room : (nearness + 1) * units ≤ nearness * bound := by
    simp only [nearness_eq, fractionBits] at wide ⊢
    omega
  refine Nat.lt_of_mul_lt_mul_left (a := nearness) (Nat.lt_of_lt_of_le near.below ?_)
  calc (nearness + 1) * (units * den) = (nearness + 1) * units * den := by rw [Nat.mul_assoc]
    _ ≤ nearness * bound * den := Nat.mul_le_mul_right den room
    _ = nearness * (bound * den) := by rw [Nat.mul_assoc]

/-- A near quotient is above what is smaller than the number by one of its parts or more. -/
lemma le_of_le (near : Near units num den) {bound : Nat} (le : nearness * bound ≤ (nearness - 1) * units) :
    bound * den < num := by
  refine Nat.lt_of_mul_lt_mul_left (a := nearness) (Nat.lt_of_le_of_lt ?_ near.above)
  calc nearness * (bound * den) = nearness * bound * den := by rw [Nat.mul_assoc]
    _ ≤ (nearness - 1) * units * den := Nat.mul_le_mul_right den le
    _ = (nearness - 1) * (units * den) := by rw [Nat.mul_assoc]

/-- The whole part of a near quotient is in the same binade, unless the number is a power of two, which begins
its binade: then it may be in the binade below. -/
lemma log2_div (near : Near units num den) (fits : Representable units) :
    (num / den).log2 = units.log2 ∨
      units = 2 ^ units.log2 ∧ (num / den).log2 + 1 = units.log2 := by
  have nonzero : units ≠ 0 := by
    rintro rfl
    have below := near.below
    simp at below
  have pos : 0 < den := by
    rcases Nat.eq_zero_or_pos den with rfl | pos
    · have below := near.below
      simp at below
    · exact pos
  have begins := Nat.log2_self_le nonzero
  have wide := lt_mul_spacing units
  have upper : num / den < 2 ^ (units.log2 + 1) := by
    rw [Nat.div_lt_iff_lt_mul pos]
    exact near.lt_of_le (add_spacing_le Nat.lt_log2_self fits (Nat.pow_dvd_pow 2 (by omega)))
  -- a number that does not begin its binade is a spacing above the power of two that does
  by_cases first : units = 2 ^ units.log2
  · cases exponent : units.log2 with
    | zero =>
      rw [exponent] at upper
      rcases Nat.lt_or_eq_of_le (Nat.le_of_lt_succ upper) with below | one
      · rw [Nat.lt_one_iff.mp below]
        exact .inl rfl
      · rw [one]
        exact .inl rfl
    | succ k =>
      -- below a power of two the spacing halves, but a part of the number is still no more than half of it
      rw [exponent] at first upper
      have half : nearness * 2 ^ k ≤ (nearness - 1) * units := by
        rw [first, Nat.pow_succ, nearness_eq]
        omega
      have lower : 2 ^ k ≤ num / den := by
        rw [Nat.le_div_iff_mul_le pos]
        exact Nat.le_of_lt (near.le_of_le half)
      have ne : num / den ≠ 0 := by
        have power := Nat.two_pow_pos k
        omega
      have le : k ≤ (num / den).log2 := (Nat.le_log2 ne).mpr lower
      have lt : (num / den).log2 < k + 2 := (Nat.log2_lt ne).mpr upper
      have same : units = 2 ^ (k + 1) := first
      omega
  · have further : 2 ^ units.log2 < units := Nat.lt_of_le_of_ne begins (Ne.symm first)
    have above := add_spacing_le further (Nat.pow_dvd_pow 2 (by omega)) fits
    have lower : 2 ^ units.log2 ≤ num / den := by
      rw [Nat.le_div_iff_mul_le pos]
      refine Nat.le_of_lt (near.le_of_le ?_)
      simp only [nearness_eq, fractionBits] at wide ⊢
      omega
    have ne : num / den ≠ 0 := by
      have power := Nat.two_pow_pos units.log2
      omega
    exact .inl ((Nat.log2_eq_iff ne).mpr ⟨lower, upper⟩)

/-- A near quotient rounds to the representable number. -/
lemma roundUnits_eq (near : Near units num den) (fits : Representable units) :
    roundUnits num den = units := by
  have wide := lt_mul_spacing units
  -- the spacing at the quotient divides the number, which is at most 2 ^ 53 times as great
  have spaced : spacing (num / den) ∣ units ∧ units ≤ 2 ^ (fractionBits + 1) * spacing (num / den) := by
    rcases near.log2_div fits with same | ⟨first, less⟩
    · have sameSpacing : spacing (num / den) = spacing units := by
        unfold spacing
        rw [same]
      rw [sameSpacing]
      exact ⟨fits, Nat.le_of_lt wide⟩
    · rw [← less] at first
      rw [first]
      refine ⟨Nat.pow_dvd_pow 2 (by omega), ?_⟩
      unfold spacing
      rw [← Nat.pow_add]
      exact Nat.pow_le_pow_right (by decide) (by simp only [fractionBits]; omega)
  unfold roundUnits
  generalize spacing (num / den) = sp at spaced
  obtain ⟨⟨c, rfl⟩, le⟩ := spaced
  have narrow := Nat.mul_le_mul_right den le
  have above := near.above
  have below := near.below
  have whole : c * (den * sp) = sp * c * den := by ac_rfl
  have part : 2 ^ (fractionBits + 1) * sp * den = 2 ^ (fractionBits + 1) * (den * sp) := by ac_rfl
  simp only [nearness_eq, fractionBits] at above below narrow part
  rw [nearest_eq (c := c) ?_ ?_, Nat.mul_comm]
  · rw [Nat.mul_assoc, whole]
    omega
  · rw [Nat.add_mul, Nat.mul_assoc, whole, Nat.one_mul]
    omega

end Near

end Calculator.Binary64
