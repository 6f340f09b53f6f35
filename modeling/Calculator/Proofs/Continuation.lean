import Calculator.Proofs.Course
import Calculator.Proofs.Result

/-!
# Going on from a result

A calculation may go on from a result: an operator is put behind it, and another result behind the operator. What
is calculated then is the operation at the two numbers. The results are read apart, because no operator lengthens the
numeral before it and a minus behind an operator is a sign (`tokenize_joined`); and a sign binds tighter than every
operator but that of powers, so the signs belong to the numbers (`wellFormed_joined`). Main statement:
`evaluateEntry_continued`.
-/

namespace Calculator

/-! ## Two signed numerals with an operator between them -/

/-- No operator lengthens the numeral before it. -/
lemma Numeral.endsBefore_symbol (n : Numeral) (op : BinaryOp) (rest : Text) : n.EndsBefore (op.symbol ++ rest) where
  noDigit := by cases op <;> rintro c ⟨⟩ <;> rfl
  noPoint := by cases op <;> simp [BinaryOp.symbol]
  noMark := by cases op <;> simp [BinaryOp.symbol]

/-- The text of a signed numeral doubles no operator before it. -/
lemma head_put_ne (n : Numeral) (s : Sign) : (s.put n.text).head? ≠ some '*' ∧ (s.put n.text).head? ≠ some '/' := by
  obtain ⟨c, tail, split, starts⟩ := n.exists_text_eq_cons
  cases s with
  | plus =>
    rw [Sign.put, split]
    constructor
    · rintro ⟨⟩
      cases starts
    · rintro ⟨⟩
      cases starts
  | minus => exact ⟨by simp [Sign.put], by simp [Sign.put]⟩

section

variable {settings : Settings} (op : BinaryOp) (n m : Numeral) (s t : Sign)

/-- Two signed numerals with an operator between them are read apart. -/
lemma tokenize_joined (plainLeft : n.NoLeadingZero) (plainRight : m.NoLeadingZero) :
    tokenize (s.put n.text ++ (op.symbol ++ t.put m.text)) =
      .ok (s.literalTokens (n.decimal.round .plus) ++ .op op :: t.literalTokens (m.decimal.round .plus)) := by
  obtain ⟨noStar, noSlash⟩ := head_put_ne m t
  have right := tokenize_put_append m t m.endsBefore_nil plainRight
  rw [List.append_nil, tokenize_nil] at right
  rw [tokenize_put_append n s (n.endsBefore_symbol op _) plainLeft, tokenize_operator op noStar noSlash, right]
  simp [Except.map]

/-- Two signed numerals with an operator between them have no brackets. -/
lemma nesting_joined (v w : Binary64) : nesting (s.literalTokens v ++ .op op :: t.literalTokens w) = 0 := by
  have left := s.nesting_literalTokens v
  have right : nestingFrom 0 (.op op :: t.literalTokens w) = 0 := t.nesting_literalTokens w
  rw [nesting] at left ⊢
  rw [(s.derives_literal v).nestingFrom_append, left, right]
  rfl

/-- Two signed numerals with an operator between them are a well-formed text of three levels. -/
lemma wellFormed_joined (noPower : op ≠ .pow) (kept : ∀ c ∈ op.symbol, Kept c) (plainLeft : n.NoLeadingZero)
    (plainRight : m.NoLeadingZero)
    (short : (s.put n.text ++ (op.symbol ++ t.put m.text)).length ≤ settings.maxLength) (deep : 3 ≤ settings.maxDepth) :
    WellFormed settings (s.put n.text ++ (op.symbol ++ t.put m.text))
      (s.literalTokens (n.decimal.round .plus) ++ .op op :: t.literalTokens (m.decimal.round .plus))
      (.binary op (s.literal (n.decimal.round .plus)) (t.literal (m.decimal.round .plus))) := by
  have trimmed : (s.put n.text ++ (op.symbol ++ t.put m.text)).trim = s.put n.text ++ (op.symbol ++ t.put m.text) :=
    trim_of_kept (List.forall_mem_append.mpr ⟨kept_put n s, List.forall_mem_append.mpr ⟨kept, kept_put m t⟩⟩)
  refine ⟨?_, ?_, ?_, .binary_of_signed noPower (s.derives_literal _) (t.derives_literal _), ?_, ?_⟩
  · rw [trimmed]
    exact List.append_ne_nil_of_left_ne_nil (s.put_ne_nil n.text_ne_nil) _
  · rwa [trimmed]
  · rw [trimmed]
    exact tokenize_joined op n m s t plainLeft plainRight
  · rw [nesting_joined]
    exact Nat.zero_le _
  · have left := s.depth_literal_le (n.decimal.round .plus)
    have right := t.depth_literal_le (m.decimal.round .plus)
    rw [Expr.depth]
    omega

end

/-! ## Two results with an operator between them -/

/-- What writes an operator in a canonical text is kept there. -/
lemma kept_of_canonical {op : BinaryOp} {symbol : Text} (writes : canonical symbol = op.symbol) :
    ∀ c ∈ op.symbol, Kept c := by
  have noBlank : (op.symbol.all fun c => !isBlank c) = true := by cases op <;> decide
  intro c mem
  have notBlank := List.all_eq_true.mp noBlank c mem
  rw [Bool.not_eq_true'] at notBlank
  rw [← writes] at mem
  exact ⟨notBlank, canonicalChar_of_ne (mem_canonical_ne mem)⟩

/-- An entry of two results with an operator between them, which is not that of powers, is calculated as the
operation at the two numbers, a negative zero being shown as zero. -/
lemma evaluateEntry_joined {v w : Binary64} (finiteV : v.isFinite = true) (finiteW : w.isFinite = true)
    {op : BinaryOp} (noPower : op ≠ .pow) {symbol : Text} (writes : canonical symbol = op.symbol) :
    evaluateEntry (v.resultText ++ (symbol ++ w.resultText)) =
      (op.run (if v = .zero .minus then .zero .plus else v)
        (if w = .zero .minus then .zero .plus else w)).outcome.bind finiteOutcome := by
  obtain ⟨s, n, writtenV, shortV, plainV, valueV⟩ := v.exists_numeral finiteV
  obtain ⟨t, m, writtenW, shortW, plainW, valueW⟩ := w.exists_numeral finiteW
  have kept := kept_of_canonical writes
  have short : (s.put n.text ++ (op.symbol ++ t.put m.text)).length ≤ 10000 := by
    have symbolShort : op.symbol.length ≤ 2 := by cases op <;> decide
    rw [← writtenV, ← writtenW, List.length_append, List.length_append]
    omega
  have wellFormed : WellFormed {} _ _ _ := wellFormed_joined op n m s t noPower kept plainV plainW short (by decide)
  have left := s.evaluates_literal (n.decimal.round .plus)
  have right := t.evaluates_literal (m.decimal.round .plus)
  rw [valueV] at left
  rw [valueW] at right
  rw [evaluateEntry, canonical_append, canonical_append, writes, writtenV, writtenW,
    canonical_of_kept (kept_put n s), canonical_of_kept (kept_put m t), evaluate, wellFormed.outcome,
    Expr.eval_binary left.eval_eq right.eval_eq]

section

variable {v w : Binary64} (finiteV : v.isFinite = true) (finiteW : w.isFinite = true) (unsignedV : v ≠ .zero .minus)
  (unsignedW : w ≠ .zero .minus)

include finiteV finiteW unsignedV unsignedW

/-- Two results with a sound operation between them are calculated as what its operator makes of the two numbers. -/
lemma evaluateEntry_of_makes {op : BinaryOp} (key : Char) {r : Binary64} (noPower : op ≠ .pow)
    (writes : canonical [key] = op.symbol) (sound : ¬ op.Faulty v w) (makes : op.Makes v w r) :
    evaluateEntry (v.resultText ++ key :: w.resultText) = finiteOutcome r := by
  have joined := evaluateEntry_joined finiteV finiteW noPower writes
  rw [if_neg unsignedV, if_neg unsignedW, BinaryOp.run_of_makes sound makes] at joined
  exact joined

/-- A calculation that goes on from a result with a sum, a difference, a product or a quotient is that of the number
shown: a quotient by zero is a division by zero, and every other calculation has the sum, the difference, the product or
the quotient of the two numbers as its value, which has to be finite. -/
theorem evaluateEntry_continued :
    evaluateEntry (v.resultText ++ '+' :: w.resultText) = finiteOutcome (v.add w) ∧
    evaluateEntry (v.resultText ++ '-' :: w.resultText) = finiteOutcome (v.sub w) ∧
    evaluateEntry (v.resultText ++ '×' :: w.resultText) = finiteOutcome (v.mul w) ∧
    evaluateEntry (v.resultText ++ '÷' :: w.resultText) =
      if w = .zero .plus then .error .divisionByZero else finiteOutcome (v.div w) := by
  refine ⟨?_, ?_, ?_, ?_⟩
  · refine evaluateEntry_of_makes finiteV finiteW unsignedV unsignedW '+' (by decide) (by decide) ?_ .add
    simp [BinaryOp.Faulty]
  · refine evaluateEntry_of_makes finiteV finiteW unsignedV unsignedW '-' (by decide) (by decide) ?_ .sub
    simp [BinaryOp.Faulty]
  · refine evaluateEntry_of_makes finiteV finiteW unsignedV unsignedW '×' (by decide) (by decide) ?_ .mul
    simp [BinaryOp.Faulty]
  · split
    · rename_i zero
      have faulty : BinaryOp.Faulty .div v w := .inl ⟨.inl rfl, .inl zero⟩
      have writes : canonical ['÷'] = BinaryOp.symbol .div := by decide
      have joined := evaluateEntry_joined finiteV finiteW (by decide) writes
      obtain ⟨event, -, fails⟩ := BinaryOp.run_of_faulty faulty
      rw [if_neg unsignedV, if_neg unsignedW, fails] at joined
      exact joined
    · rename_i nonzero
      refine evaluateEntry_of_makes finiteV finiteW unsignedV unsignedW '÷' (by decide) (by decide) ?_ .div
      simp [BinaryOp.Faulty, nonzero, unsignedW]

end

/-- A sum and a difference with a small negative number, a product and a quotient of a large one, and a quotient by
zero. -/
theorem evaluateEntry_continued_of_large :
    evaluateEntry "-2+-1.25e-7".toList = .ok (Decimal.round .minus ⟨2000000125, -9⟩) ∧
      evaluateEntry "-2--1.25e-7".toList = .ok (Decimal.round .minus ⟨1999999875, -9⟩) ∧
      evaluateEntry "1e+20×-1.25e-7".toList = .ok (Decimal.round .minus ⟨125, 11⟩) ∧
      evaluateEntry "1e+20÷-2".toList = .ok (Decimal.round .minus ⟨5, 19⟩) ∧
      evaluateEntry "1e+20÷0".toList = .error .divisionByZero := by
  let large := Decimal.round .plus ⟨1, 20⟩
  let two := Decimal.round .minus ⟨2, 0⟩
  let small := Decimal.round .minus ⟨125, -9⟩
  have largeText : large.resultText = "1e+20".toList := by decide +kernel
  have twoText : two.resultText = "-2".toList := by decide +kernel
  have smallText : small.resultText = "-1.25e-7".toList := by decide +kernel
  have zeroText : (Binary64.zero .plus).resultText = "0".toList := by decide +kernel
  have largeFits : large.isFinite = true ∧ large ≠ .zero .minus := by decide +kernel
  have twoFits : two.isFinite = true ∧ two ≠ .zero .minus := by decide +kernel
  have smallFits : small.isFinite = true ∧ small ≠ .zero .minus := by decide +kernel
  have zeroFits : (Binary64.zero .plus).isFinite = true ∧ Binary64.zero .plus ≠ .zero .minus := by decide +kernel
  have largeAndSmall := evaluateEntry_continued largeFits.1 smallFits.1 largeFits.2 smallFits.2
  have twoAndSmall := evaluateEntry_continued twoFits.1 smallFits.1 twoFits.2 smallFits.2
  have largeAndTwo := evaluateEntry_continued largeFits.1 twoFits.1 largeFits.2 twoFits.2
  have largeAndZero := evaluateEntry_continued largeFits.1 zeroFits.1 largeFits.2 zeroFits.2
  rw [largeText, smallText] at largeAndSmall
  rw [twoText, smallText] at twoAndSmall
  rw [largeText, twoText] at largeAndTwo
  rw [largeText, zeroText] at largeAndZero
  obtain ⟨sum, difference, -, -⟩ := twoAndSmall
  obtain ⟨-, -, product, -⟩ := largeAndSmall
  obtain ⟨-, -, -, quotient⟩ := largeAndTwo
  obtain ⟨-, -, -, division⟩ := largeAndZero
  refine ⟨sum.trans ?_, difference.trans ?_, product.trans ?_, quotient.trans ?_, division.trans ?_⟩
  · decide +kernel
  · decide +kernel
  · decide +kernel
  · decide +kernel
  · exact if_pos rfl

end Calculator
