import Calculator.Proofs.Canonical
import Calculator.Proofs.Panel

/-!
# Blanks around an entry

An entry is trimmed by the panel before it is calculated, and its canonical text is trimmed again when it is read. What
is rewritten in between is no blank, so that blanks around an entry are lost in the first trimming or in the second
(`calculate_surrounded`), and the panel tells the same with them. Main statement: a calculation that fails, or finds the
entry blank, leaves the entry with its blanks (`calculate_disregards_blanks`).
-/

namespace Calculator

variable {before after : Text}

namespace Text

/-- Nothing is left of blanks when those at the front are removed. -/
lemma dropWhile_isBlank_eq_nil {blanks : Text} (blank : ∀ c ∈ blanks, isBlank c = true) :
    blanks.dropWhile isBlank = [] :=
  List.dropWhile_eq_nil_iff.mpr blank

/-- Blanks at the end are trimmed. -/
lemma trimEnd_append (blankAfter : ∀ c ∈ after, isBlank c = true) (text : Text) :
    trimEnd (text ++ after) = trimEnd text := by
  have reversed : ∀ c ∈ after.reverse, isBlank c = true := by simpa using blankAfter
  rw [trimEnd, List.reverse_append, List.dropWhile_append_of_pos reversed, trimEnd]

/-- Blanks around a text are trimmed. -/
lemma trim_surrounded (blankBefore : ∀ c ∈ before, isBlank c = true)
    (blankAfter : ∀ c ∈ after, isBlank c = true) (text : Text) :
    (before ++ text ++ after).trim = text.trim := by
  rw [trim, trim, List.append_assoc, List.dropWhile_append_of_pos blankBefore, List.dropWhile_append]
  split
  · rename_i empty
    rw [List.isEmpty_iff.mp empty, dropWhile_isBlank_eq_nil blankAfter]
  · exact trimEnd_append blankAfter _

/-- Nothing is left of a text exactly when it is blank. -/
lemma trim_eq_nil_iff {text : Text} : text.trim = [] ↔ ∀ c ∈ text, isBlank c = true := by
  constructor
  · intro empty
    obtain ⟨blanks, split, blank⟩ := exists_trimEnd_append (text.dropWhile isBlank)
    rw [← trim, empty, List.nil_append] at split
    rw [← List.takeWhile_append_dropWhile (p := isBlank) (l := text), split]
    refine List.forall_mem_append.mpr ⟨fun c mem => ?_, List.all_eq_true.mp blank⟩
    exact List.mem_takeWhile_imp mem
  · intro blank
    rw [trim, dropWhile_isBlank_eq_nil blank]
    rfl

end Text

/-! ## Calculations -/

/-- Blanks stand for themselves in a canonical text. -/
lemma canonical_of_blank {blanks : Text} (blank : ∀ c ∈ blanks, isBlank c = true) : canonical blanks = blanks := by
  refine canonical_eq_self fun c mem => canonicalChar_of_ne ?_
  have isBlank := blank c mem
  refine ⟨?_, ?_, ?_⟩
  · rintro rfl
    cases isBlank
  · rintro rfl
    cases isBlank
  · rintro rfl
    cases isBlank

/-- Blanks around an entry change nothing in its calculation, events included. -/
lemma calculate_surrounded (blankBefore : ∀ c ∈ before, isBlank c = true)
    (blankAfter : ∀ c ∈ after, isBlank c = true) (settings : Settings) (entry : Text) :
    calculate settings (before ++ entry ++ after) = calculate settings entry := by
  rw [calculate, calculate, canonical_append, canonical_append, canonical_of_blank blankBefore,
    canonical_of_blank blankAfter, ← Reading.ofCanonical_trim, Text.trim_surrounded blankBefore blankAfter,
    Reading.ofCanonical_trim]

/-- The panel calculates its entry, whether the blanks around it are trimmed or not. -/
lemma calculate_trim (settings : Settings) (entry : Text) :
    calculate settings entry.trim = calculate settings entry := by
  obtain ⟨blanks, split, blank⟩ := Text.exists_trimEnd_append (entry.dropWhile isBlank)
  have blankBefore : ∀ c ∈ entry.takeWhile isBlank, isBlank c = true := fun c mem => List.mem_takeWhile_imp mem
  have whole : entry = entry.takeWhile isBlank ++ entry.trim ++ blanks := by
    rw [List.append_assoc, Text.trim, ← split, List.takeWhile_append_dropWhile]
  calc calculate settings entry.trim
      = calculate settings (entry.takeWhile isBlank ++ entry.trim ++ blanks) :=
        (calculate_surrounded blankBefore (List.all_eq_true.mp blank) settings entry.trim).symm
    _ = calculate settings entry := by rw [← whole]

/-! ## The panel -/

namespace Panel

variable {p : Panel}

/-- The outcome of a panel is that of its whole entry: outer blanks make no difference. -/
lemma outcome_eq (p : Panel) : p.outcome = (Calculator.calculate p.settings p.entry).outcome := by
  rw [outcome, calculate_trim]

/-- The panel with blanks put around its entry. -/
def surround (before after : Text) (p : Panel) : Panel :=
  { p with entry := before ++ p.entry ++ after }

section

variable (blankBefore : ∀ c ∈ before, isBlank c = true) (blankAfter : ∀ c ∈ after, isBlank c = true)

include blankBefore blankAfter

/-- Blanks around an entry are outer blanks. -/
lemma trim_surround (p : Panel) : (p.surround before after).entry.trim = p.entry.trim :=
  Text.trim_surrounded blankBefore blankAfter p.entry

/-- Blanks around the entry make no difference to the outcome. -/
lemma outcome_surround (p : Panel) : (p.surround before after).outcome = p.outcome := by
  rw [outcome, trim_surround blankBefore blankAfter]
  rfl

/-- The panel tells the same when blanks are put around its entry. -/
lemma calculate_surround (p : Panel) :
    (p.surround before after).calculate.error = p.calculate.error ∧
      (p.surround before after).calculate.trace = p.calculate.trace := by
  have trimmed := trim_surround blankBefore blankAfter p
  have same := outcome_surround blankBefore blankAfter p
  by_cases blank : p.entry.trim = []
  · rw [calculate_of_blank blank, calculate_of_blank (trimmed.trans blank)]
    exact ⟨rfl, rfl⟩
  · have nonblank : (p.surround before after).entry.trim ≠ [] := trimmed.symm ▸ blank
    cases outcome : p.outcome with
    | ok result =>
      rw [calculate_of_ok blank outcome, calculate_of_ok nonblank (same.trans outcome)]
      exact ⟨rfl, rfl⟩
    | error e =>
      rw [calculate_of_error blank outcome, calculate_of_error nonblank (same.trans outcome)]
      exact ⟨rfl, rfl⟩

/-- A calculation that succeeds leaves the same entry when blanks are put around the one that it finds. -/
lemma entry_calculate_surround {v : Binary64} {t : Trace} (nonblank : p.entry.trim ≠ [])
    (value : p.outcome = .ok (v, t)) : (p.surround before after).calculate.entry = p.calculate.entry := by
  have trimmed := trim_surround blankBefore blankAfter p
  have same := outcome_surround blankBefore blankAfter p
  rw [calculate_of_ok nonblank value, calculate_of_ok (trimmed.symm ▸ nonblank) (same.trans value)]

end

/-- A blank entry does not calculate. -/
lemma nonblank_of_ok {v : Binary64} {t : Trace} (value : p.outcome = .ok (v, t)) : p.entry.trim ≠ [] := by
  intro blank
  rw [outcome, blank] at value
  have refused : (Calculator.calculate p.settings []).outcome = .error .invalidExpression := rfl
  rw [refused] at value
  cases value

/-- A calculation that fails leaves the entry alone. -/
lemma entry_calculate_of_error {e : CalcError} (failed : p.outcome = .error e) : p.calculate.entry = p.entry := by
  by_cases blank : p.entry.trim = []
  · rw [calculate_of_blank blank]
  · rw [calculate_of_error blank failed]

/-- A calculation leaves the settings alone. -/
lemma settings_calculate (p : Panel) : p.calculate.settings = p.settings := by
  unfold calculate
  split
  · rfl
  · split <;> rfl

end Panel

/-- Blanks around an entry change nothing in its calculation, events included, nor in what the panel tells after one,
nor in the entry that a calculation with a value leaves. A calculation that fails, or that finds a blank entry, leaves
the entry as it was; the settings are always kept, and a blank entry keeps what the panel tells. -/
theorem calculate_disregards_blanks (blankBefore : ∀ c ∈ before, isBlank c = true)
    (blankAfter : ∀ c ∈ after, isBlank c = true) :
    (∀ settings entry, calculate settings (before ++ entry ++ after) = calculate settings entry) ∧
    ∀ p : Panel,
      (p.surround before after).calculate.error = p.calculate.error ∧
      (p.surround before after).calculate.trace = p.calculate.trace ∧
      (∀ v t, (calculate p.settings p.entry).outcome = .ok (v, t) →
        (p.surround before after).calculate.entry = p.calculate.entry) ∧
      (∀ e, (calculate p.settings p.entry).outcome = .error e → p.calculate.entry = p.entry) ∧
      p.calculate.settings = p.settings ∧
      ((∀ c ∈ p.entry, isBlank c = true) →
        p.calculate.entry = p.entry ∧ p.calculate.error = p.error ∧ p.calculate.trace = p.trace) := by
  refine ⟨calculate_surrounded blankBefore blankAfter, fun p => ?_⟩
  obtain ⟨error, trace⟩ := Panel.calculate_surround blankBefore blankAfter p
  refine ⟨error, trace, fun v t value => ?_, fun e failed => ?_, p.settings_calculate, fun blank => ?_⟩
  · rw [← Panel.outcome_eq] at value
    exact Panel.entry_calculate_surround blankBefore blankAfter (Panel.nonblank_of_ok value) value
  · rw [← Panel.outcome_eq] at failed
    exact Panel.entry_calculate_of_error failed
  · rw [Panel.calculate_of_blank (Text.trim_eq_nil_iff.mpr blank)]
    exact ⟨rfl, rfl, rfl⟩

/-- A quarter, with a no-break space before it and a tab behind, and a division by zero that stays as it was entered. -/
theorem calculate_disregards_blanks_of_quotient :
    let before := ['\u00a0', ' ']
    let after := ['\t']
    let p : Panel := { entry := "1÷4".toList }
    let q : Panel := { entry := " 1÷0 ".toList }
    calculate {} "\u00a0 1÷4\t".toList = calculate {} "1÷4".toList ∧
      (p.surround before after).calculate.error = none ∧
      (p.surround before after).calculate.entry = "0.25".toList ∧
      q.calculate.entry = " 1÷0 ".toList := by
  intro before after p q
  have blankBefore : ∀ c ∈ before, isBlank c = true := List.all_eq_true.mp (by decide)
  have blankAfter : ∀ c ∈ after, isBlank c = true := List.all_eq_true.mp (by decide)
  obtain ⟨same, panels⟩ := calculate_disregards_blanks blankBefore blankAfter
  obtain ⟨error, -, entry, -⟩ := panels p
  obtain ⟨-, -, -, kept, -⟩ := panels q
  have quarter : (calculate {} "1÷4".toList).outcome =
      .ok (Decimal.round .plus ⟨25, -2⟩,
        ⟨"1/4".toList, "1 / 4".toList, "1 4 /".toList, "(1 / 4)".toList⟩) := by
    decide +kernel
  have noQuotient : (calculate {} " 1÷0 ".toList).outcome = .error .divisionByZero := by decide +kernel
  refine ⟨same {} "1÷4".toList, error.trans ?_, (entry _ _ quarter).trans ?_, kept _ noQuotient⟩
  · decide +kernel
  · decide +kernel

end Calculator
