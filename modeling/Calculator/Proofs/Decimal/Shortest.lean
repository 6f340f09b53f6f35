import Calculator.Decimal.Shortest
import Calculator.Proofs.Binary64.Rounding

/-!
# Seventeen digits suffice

The magnitude has seventeen digits on one of the grids, and there its nearer neighbour is off it by less than
its 2 ^ 54th part, so it reads back. The search starts on a coarser grid and stops on this one at the latest.
Main statement: the shortest decimal of a magnitude other than zero has at most seventeen digits and an exponent
of at most three (`shortest_bounds`).
-/

namespace Calculator

open Binary64 (unitPlaces unitPlaces_eq unitsPerOne overflowUnits roundUnits)

namespace Binary64

/-- The rounded number depends on the quotient alone. -/
lemma ofUnits_mul_mul (s : Sign) (num den : Nat) {c : Nat} (pos : 0 < c) :
    ofUnits s (num * c) (den * c) = ofUnits s num den := by
  simp only [ofUnits, roundUnits_mul_mul num den pos]

/-- A quotient that is rounded to the units of a magnitude is rounded to that number. -/
lemma ofUnits_of_roundUnits {s : Sign} {num den : Nat} {m : Magnitude} (same : roundUnits num den = m.units) :
    ofUnits s num den = finite s m := by
  obtain ⟨units, fits, small⟩ := m
  subst same
  exact dif_pos small

end Binary64

namespace Decimal

/-- The number of digits that suffice. -/
def enoughDigits : Nat :=
  17

/-- The bound of seventeen digits, written out. -/
lemma ten_pow_enoughDigits : 10 ^ enoughDigits = 100000000000000000 :=
  rfl

variable {m : Magnitude} {n k : Nat}

/-- A multiple of a grid is rounded as a quotient on the finest grid. -/
lemma round_onGrid (s : Sign) (nonzero : n ≠ 0) (least : 674 ≤ k) (greatest : k ≤ 1474) :
    (onGrid n k).round s = .ofUnits s (n * 10 ^ k) (5 ^ unitPlaces) := by
  have places := unitPlaces_eq
  have five : 0 < 5 ^ unitPlaces := Nat.pow_pos (by decide)
  have one : 0 < unitsPerOne := Nat.two_pow_pos _
  have ten := ten_pow_unitPlaces
  by_cases neg : k < unitPlaces
  · have power : (-(onGrid n k).exponent).toNat = unitPlaces - k := by simp only [onGrid]; omega
    rw [round_of_neg s nonzero (by simp only [onGrid, reach]; omega) (by simp only [onGrid]; omega), power,
      ← Binary64.ofUnits_mul_mul s (n * 10 ^ k) (5 ^ unitPlaces) one,
      ← Binary64.ofUnits_mul_mul s _ (10 ^ (unitPlaces - k)) (Nat.pow_pos (n := k) (by decide : 0 < 10)),
      ← Nat.pow_add, Nat.sub_add_cancel (Nat.le_of_lt neg), ten]
    congr 1
    simp only [onGrid]
    ac_rfl
  · have power : (onGrid n k).exponent.toNat = k - unitPlaces := by simp only [onGrid]; omega
    rw [round_of_nonneg s nonzero (by simp only [onGrid]; omega) (by simp only [onGrid, reach]; omega), power,
      ← Binary64.ofUnits_mul_mul s _ 1 five, Nat.one_mul]
    congr 1
    calc n * 10 ^ (k - unitPlaces) * unitsPerOne * 5 ^ unitPlaces
        = n * (10 ^ (k - unitPlaces) * 10 ^ unitPlaces) := by rw [ten]; ac_rfl
      _ = n * 10 ^ k := by rw [← Nat.pow_add, Nat.sub_add_cancel (Nat.le_of_not_lt neg)]

/-! ## The grid of seventeen digits -/

/-- Powers of two bases compare like one pair of their powers. -/
lemma pow_le_pow_of_base {x y p q a b : Nat} (nonzero : p ≠ 0) (pos : 0 < y) (base : x ^ p ≤ y ^ q)
    (le : q * a ≤ p * b) : x ^ a ≤ y ^ b := by
  rw [← Nat.pow_le_pow_iff_left nonzero]
  calc (x ^ a) ^ p = (x ^ p) ^ a := by rw [← Nat.pow_mul, ← Nat.pow_mul, Nat.mul_comm]
    _ ≤ (y ^ q) ^ a := Nat.pow_le_pow_left base a
    _ = y ^ (q * a) := (Nat.pow_mul y q a).symm
    _ ≤ y ^ (p * b) := Nat.pow_le_pow_right pos le
    _ = (y ^ b) ^ p := by rw [← Nat.pow_mul, Nat.mul_comm]

/-- A power of ten is not above a power of five whose exponent is half as great again. -/
lemma ten_pow_le_five_pow {a b : Nat} (le : 3 * a ≤ 2 * b) : 10 ^ a ≤ 5 ^ b :=
  pow_le_pow_of_base (p := 2) (q := 3) (by decide) (by decide) (by decide) le

/-- A power of five is not above a power of two whose exponent is seven thirds as great. -/
lemma five_pow_le_two_pow {a b : Nat} (le : 7 * a ≤ 3 * b) : 5 ^ a ≤ 2 ^ b :=
  pow_le_pow_of_base (p := 3) (q := 7) (by decide) (by decide) (by decide) le

/-- Ninety-three bits are less than twenty-eight digits. -/
lemma two_pow_le_ten_pow {a b : Nat} (le : 28 * a ≤ 93 * b) : 2 ^ a ≤ 10 ^ b :=
  pow_le_pow_of_base (p := 93) (q := 28) (by decide) (by decide) (by decide) le

/-- The fine digits of a nonzero magnitude lie between two powers of ten, seventeen digits below which the
grid is within the reach of exponents. -/
lemma exists_seventeen (nonzero : m.units ≠ 0) :
    ∃ k : Nat, 700 ≤ k ∧ 10 ^ (k + 16) ≤ fineDigits m ∧ fineDigits m < 10 ^ (k + 17) := by
  have places := unitPlaces_eq
  have least : 5 ^ unitPlaces ≤ fineDigits m := Nat.le_mul_of_pos_left _ (Nat.pos_of_ne_zero nonzero)
  have below : fineDigits m < 10 ^ (Nat.toDigits 10 (fineDigits m)).length :=
    (Nat.length_toDigits_le_iff (by decide) Nat.length_toDigits_pos).mp (Nat.le_refl _)
  have long {a : Nat} (le : 3 * a ≤ 2 * unitPlaces) : a < (Nat.toDigits 10 (fineDigits m)).length :=
    (Nat.pow_lt_pow_iff_right (show 1 < 10 by decide)).mp
      (Nat.lt_of_le_of_lt (Nat.le_trans (ten_pow_le_five_pow le) least) below)
  -- five to the 1074th alone has more than 716 digits
  have digits := @long 716 (by omega)
  have seventeen : 17 ≤ (Nat.toDigits 10 (fineDigits m)).length := by omega
  obtain ⟨k, length⟩ := Nat.exists_eq_add_of_le seventeen
  refine ⟨k, by omega, ?_, ?_⟩
  · refine Nat.le_of_not_lt fun short => ?_
    have le := (Nat.length_toDigits_le_iff (by decide) (by omega)).mpr short
    omega
  · rw [Nat.add_comm k 17, ← length]
    exact below

/-- The coarsest grid of a magnitude is coarser than the magnitude. -/
lemma fineDigits_lt_coarsest (m : Magnitude) : fineDigits m < 10 ^ coarsest m := by
  have bits : fineDigits m < 2 ^ ((fineDigits m).log2 + 1) := Nat.lt_log2_self
  have digits : 2 ^ ((fineDigits m).log2 + 1) ≤ 10 ^ coarsest m := by
    apply two_pow_le_ten_pow
    unfold coarsest
    omega
  exact Nat.lt_of_lt_of_le bits digits

/-- The coarsest grid of a magnitude is at most the 1387th. -/
lemma coarsest_le (m : Magnitude) : coarsest m ≤ 1387 := by
  have places := unitPlaces_eq
  have bits {a : Nat} (le : 7 * unitPlaces ≤ 3 * a) : fineDigits m < 2 ^ (1024 + unitPlaces + a) := by
    rw [Nat.pow_add 2 (1024 + unitPlaces)]
    exact Nat.mul_lt_mul_of_lt_of_le m.bounded (five_pow_le_two_pow le) (Nat.two_pow_pos a)
  have log : (fineDigits m).log2 < 1024 + unitPlaces + 2506 := by
    by_cases zero : fineDigits m = 0
    · rw [zero]
      exact Nat.lt_add_left _ (by decide)
    · exact (Nat.log2_lt zero).mpr (bits (by omega))
  unfold coarsest
  omega

/-! ## What reads back there -/

/-- A multiple of a grid near the magnitude reads back. -/
lemma readsAs_of_near (least : 674 ≤ k) (greatest : k ≤ 1474)
    (near : Binary64.Near m.units (n * 10 ^ k) (5 ^ unitPlaces)) : (onGrid n k).readsAs m = true := by
  have nonzero : n ≠ 0 := by
    rintro rfl
    have above := near.above
    omega
  have rounded := round_onGrid .plus nonzero least greatest
  rw [Binary64.ofUnits_of_roundUnits (near.roundUnits_eq m.representable)] at rounded
  exact decide_eq_true rounded

/-- The neighbours of a magnitude on a grid are the multiples next to it on both sides. -/
lemma mem_neighbours {d : Decimal} :
    d ∈ neighbours m k ↔
      d = onGrid (fineDigits m / 10 ^ k) k ∨ d = onGrid (fineDigits m / 10 ^ k + 1) k := by
  unfold neighbours
  dsimp only
  split
  · simp only [List.mem_cons, List.not_mem_nil, or_false]
  · simp only [List.mem_cons, List.not_mem_nil, or_false]
    exact or_comm

/-- On a grid on which the magnitude has seventeen digits one of its neighbours is near it. -/
lemma exists_near_neighbour (long : 10 ^ (k + 16) ≤ fineDigits m) :
    ∃ n, onGrid n k ∈ neighbours m k ∧ Binary64.Near m.units (n * 10 ^ k) (5 ^ unitPlaces) := by
  have split := Nat.div_add_mod (fineDigits m) (10 ^ k)
  have small := Nat.mod_lt (fineDigits m) (Nat.pow_pos (n := k) (show 0 < 10 by decide))
  rw [Nat.mul_comm] at split
  rw [Nat.pow_add] at long
  -- the nearer neighbour is off by at most half a step, and a step is less than the magnitude's 2 ^ 53rd part
  by_cases nearer : 2 * (fineDigits m % 10 ^ k) < 10 ^ k
  · refine ⟨_, mem_neighbours.mpr (.inl rfl), ?_, ?_⟩
    · change _ * fineDigits m < _
      rw [Binary64.nearness_eq]
      omega
    · change _ < _ * fineDigits m
      rw [Binary64.nearness_eq]
      omega
  · refine ⟨_, mem_neighbours.mpr (.inr rfl), ?_, ?_⟩
    · change _ * fineDigits m < _
      rw [Nat.add_mul, Binary64.nearness_eq]
      omega
    · change _ < _ * fineDigits m
      rw [Nat.add_mul, Binary64.nearness_eq]
      omega

/-! ## Where the search stops -/

/-- One step of the search: it stops at a neighbour, or no neighbour reads back and it goes on. -/
lemma shortestFrom_succ (m : Magnitude) (k : Nat) :
    shortestFrom m (k + 1) ∈ neighbours m (k + 1) ∨
      (∀ d ∈ neighbours m (k + 1), d.readsAs m = false) ∧ shortestFrom m (k + 1) = shortestFrom m k := by
  rw [shortestFrom]
  cases found : (neighbours m (k + 1)).find? (readsAs · m) with
  | none =>
    refine .inr ⟨fun d mem => ?_, rfl⟩
    have fails := List.find?_eq_none.mp found d mem
    exact eq_false_of_ne_true fails
  | some d => exact .inl (List.mem_of_find?_eq_some found)

/-- Ten times a multiple of a grid is read as that multiple of the next coarser grid. -/
lemma readsAs_onGrid_mul_ten (nonzero : n ≠ 0) (least : 674 ≤ k) (greatest : k < 1474) :
    (onGrid (n * 10) k).readsAs m = (onGrid n (k + 1)).readsAs m := by
  unfold readsAs
  rw [round_onGrid .plus (by omega) least (by omega), round_onGrid .plus nonzero (by omega) greatest,
    Nat.mul_assoc, Nat.pow_succ']

/-- On a grid coarser than that of seventeen digits the neighbours have no more digits than these. -/
lemma neighbour_lt {i : Nat} (short : fineDigits m < 10 ^ (k + 17)) (coarser : k < i)
    (mem : onGrid n i ∈ neighbours m i) : n < 10 ^ enoughDigits := by
  have quotient : fineDigits m / 10 ^ i < 10 ^ 16 := by
    rw [Nat.div_lt_iff_lt_mul (Nat.pow_pos (by decide)), ← Nat.pow_add]
    exact Nat.lt_of_lt_of_le short (Nat.pow_le_pow_right (by decide) (by omega))
  rw [ten_pow_enoughDigits]
  rcases mem_neighbours.mp mem with same | same
  · injection same with same
    omega
  · injection same with same
    omega

/-- The search stops at a neighbour on the grid where one is read back. -/
lemma shortestFrom_mem {d : Decimal} (mem : d ∈ neighbours m (k + 1)) (reads : d.readsAs m = true) :
    shortestFrom m (k + 1) ∈ neighbours m (k + 1) := by
  rcases shortestFrom_succ m k with stops | ⟨misses, -⟩
  · exact stops
  · rw [misses d mem] at reads
    cases reads

/-- A search that passes the grid above that of seventeen digits stops on the latter, with no more digits: the
one number that has more is a multiple of the grid above. -/
lemma shortestFrom_seventeen (nonzero : m.units ≠ 0) (least : 700 ≤ k) (greatest : k < 1474)
    (long : 10 ^ (k + 16) ≤ fineDigits m) (short : fineDigits m < 10 ^ (k + 17))
    (passes : ∀ d ∈ neighbours m (k + 1), d.readsAs m = false) :
    ∃ n, shortestFrom m k = onGrid n k ∧ n < 10 ^ enoughDigits := by
  obtain ⟨j, rfl⟩ : ∃ j, k = j + 1 := ⟨k - 1, by omega⟩
  obtain ⟨n, near⟩ := exists_near_neighbour long
  have stops := shortestFrom_mem near.1 (readsAs_of_near (by omega) (by omega) near.2)
  have reads := readsAs_shortestFrom nonzero (j + 1)
  have quotient : fineDigits m / 10 ^ (j + 1) < 10 ^ enoughDigits := by
    rw [Nat.div_lt_iff_lt_mul (Nat.pow_pos (by decide)), Nat.mul_comm, ← Nat.pow_add]
    exact short
  rcases mem_neighbours.mp stops with below | above
  · exact ⟨_, below, quotient⟩
  · -- ten to the seventeenth here is ten to the sixteenth on the grid above, where it was passed over
    refine ⟨_, above, Nat.lt_of_le_of_ne quotient fun most => ?_⟩
    have coarse : fineDigits m / 10 ^ (j + 2) + 1 = 10 ^ 16 := by
      rw [Nat.pow_succ 10 (j + 1), ← Nat.div_div_eq_div_mul]
      rw [ten_pow_enoughDigits] at most
      omega
    rw [above, most, ten_pow_enoughDigits, show 100000000000000000 = 10 ^ 16 * 10 from rfl,
      readsAs_onGrid_mul_ten (by decide) (by omega) greatest, ← coarse,
      passes _ (mem_neighbours.mpr (.inr rfl))] at reads
    cases reads

/-- The search stops on the grid of seventeen digits at the latest, with no more digits than these. -/
lemma shortestFrom_eq {i : Nat} (nonzero : m.units ≠ 0) (least : 700 ≤ k) (greatest : i ≤ 1474)
    (coarser : k < i) (long : 10 ^ (k + 16) ≤ fineDigits m) (short : fineDigits m < 10 ^ (k + 17)) :
    ∃ n j, shortestFrom m i = onGrid n j ∧ k ≤ j ∧ j ≤ i ∧ n < 10 ^ enoughDigits := by
  induction i with
  | zero => omega
  | succ i ih =>
    rcases shortestFrom_succ m i with stops | ⟨passes, same⟩
    · obtain ⟨n, same⟩ : ∃ n, shortestFrom m (i + 1) = onGrid n (i + 1) := by
        rcases mem_neighbours.mp stops with same | same
        · exact ⟨_, same⟩
        · exact ⟨_, same⟩
      rw [same] at stops
      exact ⟨n, i + 1, same, Nat.le_of_lt coarser, Nat.le_refl _, neighbour_lt short coarser stops⟩
    · rcases Nat.lt_or_eq_of_le (Nat.le_of_lt_succ coarser) with further | rfl
      · obtain ⟨n, j, eq, above, below, bound⟩ := ih (by omega) further
        exact ⟨n, j, same.trans eq, above, by omega, bound⟩
      · obtain ⟨n, eq, bound⟩ := shortestFrom_seventeen nonzero least greatest long short passes
        exact ⟨n, k, same.trans eq, Nat.le_refl _, by omega, bound⟩

/-- The shortest decimal of a nonzero magnitude has at most seventeen digits, not all zero, and an exponent
between -374 and 313. -/
lemma shortest_bounds (nonzero : m.units ≠ 0) :
    (shortest m).digits ≠ 0 ∧ (shortest m).digits < 10 ^ enoughDigits ∧
      -374 ≤ (shortest m).exponent ∧ (shortest m).exponent ≤ 313 := by
  obtain ⟨k, least, long, short⟩ := exists_seventeen nonzero
  have greatest := coarsest_le m
  have power : 10 ^ (k + 16) < 10 ^ coarsest m := Nat.lt_of_le_of_lt long (fineDigits_lt_coarsest m)
  have coarser : k + 16 < coarsest m := (Nat.pow_lt_pow_iff_right (by decide)).mp power
  obtain ⟨n, j, eq, above, below, bound⟩ :=
    shortestFrom_eq nonzero least (Nat.le_trans greatest (by decide)) (by omega) long short
  have reads := readsAs_shortestFrom nonzero (coarsest m)
  have places := unitPlaces_eq
  rw [shortest, if_neg nonzero, eq]
  rw [eq] at reads
  refine ⟨?_, bound, ?_, ?_⟩
  · rintro (rfl : n = 0)
    have zero : (onGrid 0 j).round .plus = .zero .plus := if_pos (.inl rfl)
    have isZero : (Binary64.finite .plus m).isZero = true := by
      rw [← of_decide_eq_true reads, zero]
      decide +kernel
    exact nonzero (of_decide_eq_true isZero)
  · simp only [onGrid]
    omega
  · simp only [onGrid]
    omega

end Decimal

end Calculator
