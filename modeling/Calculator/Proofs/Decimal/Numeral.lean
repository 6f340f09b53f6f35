import Mathlib.Tactic.Lemma
import Calculator.Text
import Calculator.Sign
import Calculator.Decimal.Numeral

/-!
# The shape of numerals

A numeral is whole digits, perhaps a point and places, and perhaps an exponent, with a digit before or after the
point. Its parts determine its value, and reading its text finds them again (`Numeral.ofNumeral?_text`).
-/

namespace Calculator

/-- The exponent of a numeral: a mark, perhaps a sign, and at least one digit. -/
structure Exponent where
  mark : Char
  sign : Option Sign
  digits : Text
  isMark : mark = 'e' ∨ mark = 'E'
  isDigit : ∀ c ∈ digits, c.isDigit = true
  nonempty : digits ≠ []

/-- A numeral, in its parts. -/
structure Numeral where
  whole : Text
  places : Option Text
  exponent : Option Exponent
  isDigit : ∀ c ∈ whole, c.isDigit = true
  isPlace : ∀ text ∈ places, ∀ c ∈ text, c.isDigit = true
  nonempty : whole ++ places.getD [] ≠ []

namespace Exponent

/-- The sign as it is written, if it is. -/
def signText (e : Exponent) : Text :=
  (e.sign.map Sign.symbol).toList

/-- The exponent as it is written. -/
def text (e : Exponent) : Text :=
  e.mark :: (e.signText ++ e.digits)

/-- The integer that the exponent stands for. -/
def value (e : Exponent) : Int :=
  (e.sign.getD .plus).apply (Nat.ofDigitChars 10 e.digits 0)

end Exponent

namespace Numeral

/-- The point and the places, if there is a point. -/
def pointText (n : Numeral) : Text :=
  match n.places with
  | none => []
  | some text => '.' :: text

/-- The exponent as it is written, if there is one. -/
def exponentText (n : Numeral) : Text :=
  (n.exponent.map Exponent.text).getD []

/-- The numeral as it is written. -/
def text (n : Numeral) : Text :=
  n.whole ++ (n.pointText ++ n.exponentText)

/-- The decimal that the numeral stands for. -/
def decimal (n : Numeral) : Decimal where
  digits := Nat.ofDigitChars 10 (n.whole ++ n.places.getD []) 0
  exponent := (n.exponent.map Exponent.value).getD 0 - (n.places.getD []).length

end Numeral

/-! ## The characters of a numeral -/

/-- The characters of numerals that are no digits. -/
def numeralMarks : Text :=
  ['.', 'e', 'E', '+', '-']

/-- An exponent holds digits and the marks of numerals only. -/
lemma Exponent.char_of_mem_text {e : Exponent} {c : Char} (mem : c ∈ e.text) :
    c.isDigit = true ∨ c ∈ numeralMarks := by
  rcases List.mem_cons.mp mem with rfl | mem
  · rcases e.isMark with mark | mark
    · exact .inr (mark ▸ by decide)
    · exact .inr (mark ▸ by decide)
  · rcases List.mem_append.mp mem with mem | mem
    · obtain ⟨s, -, rfl⟩ : ∃ s, e.sign = some s ∧ s.symbol = c := by
        simpa [signText] using mem
      cases s with
      | plus => exact .inr (by decide)
      | minus => exact .inr (by decide)
    · exact .inl (e.isDigit c mem)

/-- A numeral is made of digits, a point, an exponent mark and a sign of the exponent. -/
lemma Numeral.char_of_mem_text {n : Numeral} {c : Char} (mem : c ∈ n.text) :
    c.isDigit = true ∨ c ∈ numeralMarks := by
  rcases List.mem_append.mp mem with mem | mem
  · exact .inl (n.isDigit c mem)
  · rcases List.mem_append.mp mem with mem | mem
    · unfold pointText at mem
      cases places : n.places with
      | none => simp [places] at mem
      | some text =>
        rw [places] at mem
        rcases List.mem_cons.mp mem with rfl | mem
        · exact .inr (by decide)
        · exact .inl (n.isPlace text places c mem)
    · cases exponent : n.exponent with
      | none => simp [exponentText, exponent] at mem
      | some e =>
        have memText : c ∈ e.text := by simpa [exponentText, exponent] using mem
        exact e.char_of_mem_text memText

/-! ## Runs of digits -/

/-- A text that goes on with no digit. -/
def StartsWithNoDigit (rest : Text) : Prop :=
  ∀ c ∈ rest.head?, c.isDigit = false

/-- The empty text starts with no digit. -/
lemma startsWithNoDigit_nil : StartsWithNoDigit [] := by
  simp [StartsWithNoDigit]

section Digits

variable {digits rest : Text} (isDigit : ∀ c ∈ digits, c.isDigit = true) (ends : StartsWithNoDigit rest)

include isDigit ends

/-- The digits at the front of a text are a run that no digit follows. -/
lemma takeWhile_isDigit_append : (digits ++ rest).takeWhile Char.isDigit = digits := by
  rw [List.takeWhile_append_of_pos isDigit]
  cases rest with
  | nil => simp
  | cons c rest => simp [ends c rfl]

/-- What is behind the digits at the front of a text is what follows a run of digits. -/
lemma dropWhile_isDigit_append : (digits ++ rest).dropWhile Char.isDigit = rest := by
  rw [List.dropWhile_append_of_pos isDigit]
  cases rest with
  | nil => rfl
  | cons c rest => simp [ends c rfl]

end Digits

/-! ## Reading an exponent -/

namespace Exponent

/-- The digits of an exponent are read as a natural number. -/
lemma natural?_digits (e : Exponent) : Decimal.natural? e.digits = some (Nat.ofDigitChars 10 e.digits 0) := by
  have isDigit : e.digits.all Char.isDigit = true := List.all_eq_true.mpr e.isDigit
  have written : ¬ e.digits.isEmpty = true := by
    rw [List.isEmpty_iff]
    exact e.nonempty
  rw [Decimal.natural?, if_neg written, if_pos isDigit]

/-- The digits of an exponent with its sign are read as its value. -/
lemma integer?_text (e : Exponent) : Decimal.integer? (e.signText ++ e.digits) = some e.value := by
  have natural := e.natural?_digits
  obtain ⟨mark, sign, digits, isMark, isDigit, nonempty⟩ := e
  cases sign with
  | none =>
    cases digits with
    | nil => exact absurd rfl nonempty
    | cons c digits =>
      have digit := isDigit c List.mem_cons_self
      have notPlus : c ≠ '+' := by
        rintro rfl
        cases digit
      have notMinus : c ≠ '-' := by
        rintro rfl
        cases digit
      simp [signText, Decimal.integer?, notPlus, notMinus, natural, value, Sign.apply]
  | some s =>
    cases s with
    | plus => simp [signText, Sign.symbol, Decimal.integer?, natural, value, Sign.apply]
    | minus => simp [signText, Sign.symbol, Decimal.integer?, natural, value, Sign.apply]

/-- An exponent is read as its value. -/
lemma exponent?_text (e : Exponent) : Decimal.exponent? e.text = some e.value := by
  rw [text, Decimal.exponent?, if_pos e.isMark, e.integer?_text]

end Exponent

/-! ## Reading a numeral -/

namespace Numeral

variable (n : Numeral)

/-- An exponent starts with one of its two marks. -/
lemma head_exponentText : ∀ c ∈ n.exponentText.head?, c = 'e' ∨ c = 'E' := by
  unfold exponentText
  cases n.exponent with
  | none => simp
  | some e => simpa [Exponent.text] using e.isMark

/-- No digit comes first behind the places of a numeral. -/
lemma startsWithNoDigit_exponentText {rest : Text} (ends : StartsWithNoDigit rest) :
    StartsWithNoDigit (n.exponentText ++ rest) := by
  have head := n.head_exponentText
  cases exponent : n.exponentText with
  | nil => exact ends
  | cons c text =>
    intro d isHead
    cases isHead
    rw [exponent] at head
    rcases head c rfl with rfl | rfl
    · rfl
    · rfl

/-- No digit comes first behind the whole part of a numeral. -/
lemma startsWithNoDigit_afterWhole {rest : Text} (ends : StartsWithNoDigit rest) :
    StartsWithNoDigit (n.pointText ++ (n.exponentText ++ rest)) := by
  unfold pointText
  cases n.places with
  | none => exact n.startsWithNoDigit_exponentText ends
  | some text =>
    intro c isHead
    cases isHead
    rfl

/-- After the whole digits the places are found, and after these the exponent. -/
lemma places_afterPlaces : Decimal.places (n.pointText ++ n.exponentText) = n.places.getD [] ∧
    Decimal.afterPlaces (n.pointText ++ n.exponentText) = n.exponentText := by
  have ends := n.startsWithNoDigit_exponentText startsWithNoDigit_nil
  rw [List.append_nil] at ends
  unfold pointText
  cases places : n.places with
  | none =>
    have head := n.head_exponentText
    cases exponent : n.exponentText with
    | nil => exact ⟨rfl, rfl⟩
    | cons c text =>
      rw [exponent] at head
      have notPoint : c ≠ '.' := by
        rintro rfl
        exact absurd (head '.' rfl) (by decide)
      simp [Decimal.places, Decimal.afterPlaces, notPoint]
  | some text =>
    have isPlace := n.isPlace text places
    exact ⟨takeWhile_isDigit_append isPlace ends, dropWhile_isDigit_append isPlace ends⟩

/-- Reading the text of a numeral gives its decimal. -/
lemma ofNumeral?_text : Decimal.ofNumeral? n.text = some n.decimal := by
  have ends := n.startsWithNoDigit_afterWhole startsWithNoDigit_nil
  rw [List.append_nil] at ends
  have written : ¬ (n.whole ++ n.places.getD []).isEmpty = true := by
    rw [List.isEmpty_iff]
    exact n.nonempty
  have exponent : Decimal.exponent? n.exponentText = some ((n.exponent.map Exponent.value).getD 0) := by
    unfold exponentText
    cases n.exponent with
    | none => rfl
    | some e => exact e.exponent?_text
  unfold Decimal.ofNumeral? text
  rw [takeWhile_isDigit_append n.isDigit ends, dropWhile_isDigit_append n.isDigit ends]
  simp only [n.places_afterPlaces, if_neg written, exponent, Option.map_some, decimal]

/-- Every numeral is read as a number. -/
lemma binary64_text : Binary64.ofNumeral? n.text = some (n.decimal.round .plus) := by
  rw [Binary64.ofNumeral?, n.ofNumeral?_text, Option.map_some]

end Numeral

end Calculator
