import Calculator.Decimal.Layout
import Calculator.Proofs.Decimal.Shortest
import Calculator.Proofs.Token.Lexer

/-!
# Written numbers are numerals

In positional and in scientific form a decimal is written as a numeral that reads back as the same number
(`Decimal.exists_numeral_positional`, `Decimal.exists_numeral_scientific`). With seventeen digits and an
exponent of three, the form that a result takes has at most 23 characters (`Decimal.length_resultText_le`).
-/

namespace Calculator

/-! ## The digits of a natural number -/

variable {n : Nat}

/-- The digits of a number are digits. -/
lemma isDigit_digitsText : ∀ c ∈ digitsText n, c.isDigit = true :=
  fun _ mem => Nat.isDigit_of_mem_toDigits (by decide) (by decide) mem

/-- A run of zeros is digits. -/
lemma isDigit_zeros {k : Nat} : ∀ c ∈ List.replicate k '0', c.isDigit = true := by
  intro c mem
  rw [List.eq_of_mem_replicate mem]
  rfl

/-- The digits of a number are read as that number. -/
lemma ofDigitChars_digitsText : Nat.ofDigitChars 10 (digitsText n) 0 = n :=
  Nat.ofDigitChars_ten_toDigits

/-- A number has at least one digit. -/
lemma digitsText_ne_nil : digitsText n ≠ [] :=
  Nat.toDigits_ne_nil

/-- A number below a power of ten has no more digits than its exponent. -/
lemma length_digitsText_le {k : Nat} (pos : 0 < k) (bound : n < 10 ^ k) : (digitsText n).length ≤ k :=
  (Nat.length_toDigits_le_iff (by decide) pos).mpr bound

/-- What is appended to the digits of a natural number does not change the first one. -/
lemma head_digitsText_append (n : Nat) (text : Text) : (digitsText n ++ text).head? = (digitsText n).head? := by
  obtain ⟨c, digits, eq⟩ := List.exists_cons_of_ne_nil (digitsText_ne_nil (n := n))
  rw [eq]
  rfl

/-- A number other than zero does not start with a zero. -/
lemma head_digitsText (nonzero : n ≠ 0) : (digitsText n).head? ≠ some '0' := by
  induction n using Nat.strongRecOn with
  | ind n ih =>
    by_cases small : n < 10
    · have digit : ∀ m < 10, m ≠ 0 → Nat.digitChar m ≠ '0' := by decide
      rw [digitsText, Nat.toDigits_of_lt_base small, List.head?_cons, Ne, Option.some_inj]
      exact digit n small nonzero
    · have quotient := ih (n / 10) (by omega) (by omega)
      have split : digitsText n = digitsText (n / 10) ++ [Nat.digitChar (n % 10)] :=
        Nat.toDigits_of_base_le (by decide) (by omega)
      rw [split, head_digitsText_append]
      exact quotient

/-- No zero leads the digits of a number, also with zeros behind them. -/
lemma hasLeadingZero_digitsText (n zeros : Nat) :
    Lexer.hasLeadingZero (digitsText n ++ List.replicate zeros '0') = false := by
  unfold Lexer.hasLeadingZero
  rw [head_digitsText_append]
  by_cases zero : n = 0
  · subst zero
    have digits : digitsText 0 = ['0'] := rfl
    simp [digits]
  · simp [head_digitsText zero]

/-! ## The two forms -/

/-- The exponent that writes an integer with its sign. -/
def Exponent.ofInt (e : Int) : Exponent where
  mark := 'e'
  sign := some (Sign.ofInt e)
  digits := digitsText e.natAbs
  isMark := .inl rfl
  isDigit := isDigit_digitsText
  nonempty := digitsText_ne_nil

/-- The exponent that writes an integer has that value. -/
lemma Exponent.value_ofInt (e : Int) : (ofInt e).value = e := by
  simp [value, ofInt, ofDigitChars_digitsText, Sign.apply_ofInt_natAbs]

namespace Numeral

/-- The numeral is the text, is read as one token, and stands for the same number as the decimal. -/
structure Writes (n : Numeral) (text : Text) (d : Decimal) : Prop where
  text_eq : n.text = text
  noLeadingZero : n.NoLeadingZero
  round_eq : ∀ s, n.decimal.round s = d.round s

/-- The numeral of some digits, of which the first `i` are whole; without others it has no point. -/
def cut (digits : Text) (isDigit : ∀ c ∈ digits, c.isDigit = true) (nonempty : digits ≠ []) (i : Nat)
    (exponent : Option Exponent) : Numeral where
  whole := digits.take i
  places := if (digits.drop i).isEmpty then none else some (digits.drop i)
  exponent := exponent
  isDigit := fun c mem => isDigit c (List.mem_of_mem_take mem)
  isPlace := by
    intro text isSome c mem
    split at isSome
    · cases isSome
    · cases isSome
      exact isDigit c (List.mem_of_mem_drop mem)
  nonempty := by
    split
    · rename_i empty
      rw [List.isEmpty_iff, List.drop_eq_nil_iff] at empty
      simpa [List.take_of_length_le empty] using nonempty
    · simpa using nonempty

section

variable {digits : Text} {isDigit : ∀ c ∈ digits, c.isDigit = true} {nonempty : digits ≠ []} {i : Nat}
  {exponent : Option Exponent}

/-- The places of a cut numeral are the digits behind the cut. -/
lemma places_cut : (cut digits isDigit nonempty i exponent).places.getD [] = digits.drop i := by
  unfold cut
  dsimp only
  split
  · rename_i empty
    rw [List.isEmpty_iff.mp empty]
    rfl
  · rfl

/-- A cut numeral is written with the point at the cut, unless no digit is behind it. -/
lemma text_cut : (cut digits isDigit nonempty i exponent).text = digits.take i ++
    ((if (digits.drop i).isEmpty then [] else '.' :: digits.drop i) ++
      (exponent.map Exponent.text).getD []) := by
  unfold text pointText exponentText cut
  dsimp only
  by_cases empty : (digits.drop i).isEmpty = true
  · simp only [if_pos empty]
  · simp only [if_neg empty]

/-- A cut stands for the number of its digits, scaled by its exponent and its places. -/
lemma decimal_cut : (cut digits isDigit nonempty i exponent).decimal =
    ⟨Nat.ofDigitChars 10 digits 0, (exponent.map Exponent.value).getD 0 - (digits.length - i : Nat)⟩ := by
  have joined : digits.take i ++ digits.drop i = digits := List.take_append_drop i digits
  rw [decimal, places_cut, List.length_drop]
  congr 2

end

end Numeral

namespace Decimal

/-- Without decimal places, the zeros after the digits multiply by the power of ten. -/
lemma exists_numeral_whole (digits : Nat) {e : Nat} (near : e ≤ 400) :
    ∃ n : Numeral, n.Writes (positional ⟨digits, e⟩) ⟨digits, e⟩ := by
  have noLeadingZero := hasLeadingZero_digitsText digits e
  have isDigit : ∀ c ∈ digitsText digits ++ List.replicate e '0', c.isDigit = true :=
    List.forall_mem_append.mpr ⟨isDigit_digitsText, isDigit_zeros⟩
  have written : positional ⟨digits, e⟩ = digitsText digits ++ List.replicate e '0' := by
    simp [positional]
  have value : Nat.ofDigitChars 10 (digitsText digits ++ List.replicate e '0') 0 = digits * 10 ^ e := by
    simp [Nat.ofDigitChars_append, ofDigitChars_digitsText, Nat.mul_comm]
  rw [written]
  generalize digitsThenZeros : digitsText digits ++ List.replicate e '0' = whole at noLeadingZero isDigit value
  have nonempty : whole ≠ [] := by simp [← digitsThenZeros, digitsText_ne_nil]
  refine ⟨.cut whole isDigit nonempty whole.length none, ?_, ?_, ?_⟩
  · simp [Numeral.text_cut]
  · intro _ _
    simpa [Numeral.cut] using noLeadingZero
  · intro s
    rw [← round_mul_pow s digits near, Numeral.decimal_cut, value]
    simp

/-- With decimal places, the digits are filled up with zeros in front, so that a whole digit is left. -/
lemma exists_numeral_places (digits : Nat) {places : Nat} (nonzero : places ≠ 0) :
    ∃ n : Numeral, n.Writes (positional ⟨digits, -places⟩) ⟨digits, -places⟩ := by
  have isDigit : ∀ c ∈ List.replicate (places + 1 - (digitsText digits).length) '0' ++ digitsText digits,
      c.isDigit = true :=
    List.forall_mem_append.mpr ⟨isDigit_zeros, isDigit_digitsText⟩
  have value : Nat.ofDigitChars 10
      (List.replicate (places + 1 - (digitsText digits).length) '0' ++ digitsText digits) 0 = digits := by
    simp [Nat.ofDigitChars_append, ofDigitChars_digitsText]
  have long : places <
      (List.replicate (places + 1 - (digitsText digits).length) '0' ++ digitsText digits).length := by
    simp only [List.length_append, List.length_replicate]
    omega
  have negative : ¬ (0 : Int) ≤ -places := by omega
  simp only [positional, if_neg negative, Int.neg_neg, Int.toNat_natCast]
  generalize List.replicate (places + 1 - (digitsText digits).length) '0' ++ digitsText digits = padded
    at isDigit value long
  have after : ¬ (padded.drop (padded.length - places)).isEmpty = true := by
    rw [List.isEmpty_iff, List.drop_eq_nil_iff]
    omega
  have nonempty : padded ≠ [] := List.ne_nil_of_length_pos (by omega)
  refine ⟨.cut padded isDigit nonempty (padded.length - places) none, ?_, ?_, ?_⟩
  · rw [Numeral.text_cut, if_neg after]
    simp
  · intro noPlaces
    simp only [Numeral.cut, if_neg after] at noPlaces
    cases noPlaces
  · intro s
    have rest : padded.length - (padded.length - places) = places := by omega
    rw [Numeral.decimal_cut, value, rest]
    simp

/-- A decimal within reach is a numeral when it is written positionally. -/
lemma exists_numeral_positional {d : Decimal} (near : d.exponent ≤ reach) :
    ∃ n : Numeral, n.Writes d.positional d := by
  obtain ⟨digits, exponent⟩ := d
  simp only [reach] at near
  cases exponent with
  | ofNat e =>
    have within : (e : Int) ≤ 400 := near
    exact exists_numeral_whole digits (by omega)
  | negSucc places => exact exists_numeral_places digits (Nat.succ_ne_zero places)

/-- The shortest decimal of a magnitude, written positionally as tokens and trees do, is a numeral. -/
lemma exists_numeral_shortest (m : Magnitude) : ∃ n : Numeral, n.Writes (shortest m).positional (shortest m) := by
  refine exists_numeral_positional ?_
  by_cases noUnits : m.units = 0
  · rw [shortest, if_pos noUnits]
    decide
  · obtain ⟨-, -, -, greatest⟩ := shortest_bounds noUnits
    exact Int.le_trans greatest (by decide)

/-- A decimal is a numeral when it is written with an exponent. -/
lemma exists_numeral_scientific (d : Decimal) : ∃ n : Numeral, n.Writes d.scientific d := by
  refine ⟨.cut (digitsText d.digits) isDigit_digitsText digitsText_ne_nil 1
    (some (.ofInt d.leadingExponent)), ?_, ?_, ?_⟩
  · simp [Numeral.text_cut, scientific, exponentText, Exponent.text, Exponent.ofInt, Exponent.signText]
  · intro _ noPlaces
    cases noPlaces
  · intro s
    rw [Numeral.decimal_cut, ofDigitChars_digitsText]
    congr 1
    simp [Exponent.value_ofInt, leadingExponent]

/-- A decimal within reach is a numeral in the form that results have. -/
lemma exists_numeral_resultText {d : Decimal} (near : d.exponent ≤ reach) :
    ∃ n : Numeral, n.Writes d.resultText d := by
  unfold resultText
  split
  · exact exists_numeral_positional near
  · exact exists_numeral_scientific d

/-! ## The length of a result -/

/-- A decimal of at most seventeen digits with an exponent of at most three is written as a result in at most
23 characters. -/
lemma length_resultText_le {d : Decimal} (digits : d.digits < 10 ^ enoughDigits) (least : -374 ≤ d.exponent)
    (greatest : d.exponent ≤ 313) : d.resultText.length ≤ 23 := by
  have few : (digitsText d.digits).length ≤ 17 := length_digitsText_le (by decide) digits
  have one : 0 < (digitsText d.digits).length := List.length_pos_iff.mpr digitsText_ne_nil
  unfold resultText
  split
  · rename_i within
    simp only [leastPositional, greatestPositional, leadingExponent] at within
    unfold positional
    split
    · simp only [List.length_append, List.length_replicate]
      omega
    · simp only [List.length_append, List.length_cons, List.length_take, List.length_drop,
        List.length_replicate]
      omega
  · have exponent : (digitsText d.leadingExponent.natAbs).length ≤ 3 := by
      refine length_digitsText_le (by decide) ?_
      simp only [leadingExponent]
      omega
    have fraction : (if ((digitsText d.digits).drop 1).isEmpty then [] else
        '.' :: (digitsText d.digits).drop 1).length ≤ (digitsText d.digits).length := by
      split
      · exact Nat.zero_le _
      · simp only [List.length_cons, List.length_drop]
        omega
    simp only [scientific, exponentText, List.length_append, List.length_cons, List.length_take]
    omega

end Decimal

end Calculator
