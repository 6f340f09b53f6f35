import Calculator.Text

/-!
# Canonical text

An entry writes multiplication, division and percentages as one does on paper. Its canonical text uses the
symbols of the grammar instead: every percent sign becomes a division by a hundred, wherever it stands. None of the
symbols that are replaced is left, so a canonical text is its own canonical text.
-/

namespace Calculator

/-- The canonical text of one character. -/
def canonicalChar (c : Char) : Text :=
  if c = '×' then ['*']
  else if c = '÷' then ['/']
  else if c = '%' then ['/', '1', '0', '0']
  else [c]

/-- The canonical text of an entry. -/
def canonical (entry : Text) : Text :=
  entry.flatMap canonicalChar

/-- The canonical text of two entries in a row is that of the one, then that of the other. -/
theorem canonical_append (a b : Text) : canonical (a ++ b) = canonical a ++ canonical b :=
  List.flatMap_append

/-- None of the symbols that are replaced is left. -/
theorem mem_canonicalChar_ne {c d : Char} (h : d ∈ canonicalChar c) : d ≠ '×' ∧ d ≠ '÷' ∧ d ≠ '%' := by
  unfold canonicalChar at h
  split at h
  · simp_all
  · split at h
    · simp_all
    · split at h
      · simp only [List.mem_cons, List.not_mem_nil, or_false] at h
        rcases h with rfl | rfl | rfl | rfl <;> decide
      · simp_all

/-- A canonical text holds none of the symbols that are replaced. -/
theorem mem_canonical_ne {entry : Text} {d : Char} (h : d ∈ canonical entry) :
    d ≠ '×' ∧ d ≠ '÷' ∧ d ≠ '%' := by
  obtain ⟨c, _, mem⟩ := List.mem_flatMap.mp h
  exact mem_canonicalChar_ne mem

/-- A character other than the symbols that are replaced stands for itself. -/
theorem canonicalChar_of_ne {c : Char} (h : c ≠ '×' ∧ c ≠ '÷' ∧ c ≠ '%') : canonicalChar c = [c] := by
  obtain ⟨notTimes, notDivided, notPercent⟩ := h
  rw [canonicalChar, if_neg notTimes, if_neg notDivided, if_neg notPercent]

/-- A text of characters that stand for themselves is canonical. -/
theorem canonical_eq_self {text : Text} (plain : ∀ c ∈ text, canonicalChar c = [c]) : canonical text = text := by
  induction text with
  | nil => rfl
  | cons c text ih =>
    have tail := ih fun d mem => plain d (List.mem_cons_of_mem c mem)
    rw [canonical, List.flatMap_cons, plain c List.mem_cons_self]
    exact congrArg (c :: ·) tail

end Calculator
