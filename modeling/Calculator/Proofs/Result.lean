import Calculator.Panel
import Calculator.Proofs.Decimal.Layout
import Calculator.Proofs.Outcome
import Calculator.Proofs.Token.Seams

/-!
# Results are entries

The result of a finite number is a numeral, perhaps with a minus before it (`Binary64.exists_numeral`). As an
entry it is read back as that number, a negative one as a sign before a positive number, which takes a tree of
depth two. A calculation of a result therefore gives the same result again: main statement, `result_is_entry`.
-/

namespace Calculator

/-! ## The characters of a numeral -/

/-- A character that an entry keeps: it is not blank, and stands for itself. -/
def Kept (c : Char) : Prop :=
  isBlank c = false ∧ canonicalChar c = [c]

/-- Whether a character is kept is decided by its blankness and its canonical text. -/
instance : DecidablePred Kept :=
  fun c => inferInstanceAs (Decidable (isBlank c = false ∧ canonicalChar c = [c]))

/-- Digits are kept. -/
lemma kept_of_isDigit {c : Char} (digit : c.isDigit = true) : Kept c := by
  refine ⟨Lexer.isBlank_of_isDigit digit, ?_⟩
  unfold canonicalChar
  split
  · subst c
    cases digit
  · split
    · subst c
      cases digit
    · split
      · subst c
        cases digit
      · rfl

/-- The signs are kept. -/
lemma kept_symbol (s : Sign) : Kept s.symbol := by
  cases s <;> decide

/-- All characters of a numeral are kept. -/
lemma Numeral.kept_of_mem_text {n : Numeral} {c : Char} (mem : c ∈ n.text) : Kept c := by
  rcases n.char_of_mem_text mem with digit | mark
  · exact kept_of_isDigit digit
  · simp only [numeralMarks, List.mem_cons, List.not_mem_nil, or_false] at mark
    rcases mark with rfl | rfl | rfl | rfl | rfl <;> decide

/-- All characters behind a sign are kept with the sign. -/
lemma Sign.kept_put (s : Sign) {text : Text} (kept : ∀ c ∈ text, Kept c) : ∀ c ∈ s.put text, Kept c := by
  cases s with
  | plus => exact kept
  | minus => exact List.forall_mem_cons.mpr ⟨kept_symbol .minus, kept⟩

/-- A text behind a sign is not empty if it was not before. -/
lemma Sign.put_ne_nil (s : Sign) {text : Text} (nonempty : text ≠ []) : s.put text ≠ [] := by
  cases s with
  | plus => exact nonempty
  | minus => exact List.cons_ne_nil _ _

/-- A numeral is not empty. -/
lemma Numeral.text_ne_nil (n : Numeral) : n.text ≠ [] := by
  obtain ⟨c, tail, split, -⟩ := n.exists_text_eq_cons
  rw [split]
  exact List.cons_ne_nil c tail

/-- A text of kept characters is canonical. -/
lemma canonical_of_kept {text : Text} (kept : ∀ c ∈ text, Kept c) : canonical text = text :=
  canonical_eq_self fun c mem => (kept c mem).2

/-- A text of kept characters has no outer blanks. -/
lemma trim_of_kept {text : Text} (kept : ∀ c ∈ text, Kept c) : text.trim = text :=
  Text.trim_eq_self (fun c isHead => (kept c (List.mem_of_mem_head? isHead)).1)
    fun c isLast => (kept c (List.mem_of_getLast? isLast)).1

/-! ## Reading a result -/

namespace Sign

/-- The tokens of a number behind a sign, of which only a minus is written. -/
def literalTokens : Sign → Binary64 → List Token
  | plus, v => [.number v]
  | minus, v => [.op .sub, .number v]

/-- The tree of a number behind a sign, of which only a minus is written. -/
def literal : Sign → Binary64 → Expr
  | plus, v => .number v
  | minus, v => .signed .minus (.number v)

variable (s : Sign) (v : Binary64)

/-- A number behind a sign derives its literal. -/
lemma derives_literal : Derives .signed (s.literalTokens v) (s.literal v) := by
  have number : Derives .signed [.number v] (.number v) := .unsigned (.base .number)
  cases s with
  | plus => exact number
  | minus => exact .sign (s := .minus) number

/-- The literal stands for the number with the sign before it. -/
lemma evaluates_literal : (s.literal v).Evaluates (s.actOn v) := by
  cases s with
  | plus => exact .number
  | minus => exact .minus .number

/-- A literal has no brackets. -/
lemma nesting_literalTokens : nesting (s.literalTokens v) = 0 := by
  cases s <;> rfl

/-- A literal is at most two nodes deep. -/
lemma depth_literal_le : (s.literal v).depth ≤ 2 := by
  cases s with
  | plus => exact Nat.le_succ 1
  | minus => exact Nat.le_refl 2

end Sign

section

variable {settings : Settings} (n : Numeral) (s : Sign)

/-- All characters of a signed numeral are kept. -/
lemma kept_put : ∀ c ∈ s.put n.text, Kept c :=
  s.kept_put fun _ mem => n.kept_of_mem_text mem

/-- A signed numeral and what follows it are its literal and the tokens of what follows. -/
lemma tokenize_put_append {rest : Text} (ends : n.EndsBefore rest) (noLeadingZero : n.NoLeadingZero) :
    tokenize (s.put n.text ++ rest) =
      (tokenize rest).map (s.literalTokens (n.decimal.round .plus) ++ ·) := by
  have tokens := n.tokenize_append ends noLeadingZero
  cases s with
  | plus => exact tokens
  | minus =>
    -- the minus is a token of its own
    have minus := tokenize_sign .minus (n.text ++ rest)
    rw [tokens] at minus
    rw [Sign.put, List.cons_append]
    refine minus.trans ?_
    cases tokenize rest <;> rfl

/-- A signed numeral is a well-formed text that stands for its signed number. -/
lemma wellFormed_put (noLeadingZero : n.NoLeadingZero) (short : (s.put n.text).length ≤ settings.maxLength)
    (deep : 2 ≤ settings.maxDepth) :
    ∃ ts tree, WellFormed settings (s.put n.text) ts tree ∧
      tree.Evaluates (s.actOn (n.decimal.round .plus)) := by
  have trimmed := trim_of_kept (kept_put n s)
  have tokens := tokenize_put_append n s n.endsBefore_nil noLeadingZero
  rw [List.append_nil, tokenize_nil, Except.map, List.append_nil] at tokens
  refine ⟨_, _, ⟨?_, ?_, ?_, (s.derives_literal _).toSum, ?_, ?_⟩, s.evaluates_literal _⟩
  · rw [trimmed]
    exact s.put_ne_nil n.text_ne_nil
  · rwa [trimmed]
  · rw [trimmed, tokens]
  · rw [s.nesting_literalTokens]
    exact Nat.zero_le _
  · exact Nat.le_trans (s.depth_literal_le _) deep

end

namespace Binary64

/-- A sign before a positive number is the sign of the number. -/
lemma actOn_finite (s : Sign) (m : Magnitude) : s.actOn (finite .plus m) = finite s m := by
  cases s <;> rfl

/-- The result of a finite number is a signed numeral of that number, or of zero without a sign. -/
lemma exists_numeral {v : Binary64} (isFinite : v.isFinite = true) :
    ∃ (s : Sign) (n : Numeral),
      v.resultText = s.put n.text ∧ v.resultText.length ≤ 24 ∧ n.NoLeadingZero ∧
        s.actOn (n.decimal.round .plus) = if v = zero .minus then zero .plus else v := by
  cases v with
  | nan => cases isFinite
  | infinite s => cases isFinite
  | finite s m =>
    by_cases noUnits : m.units = 0
    · -- a zero is written without its sign
      obtain ⟨n, writes⟩ := Decimal.exists_numeral_positional (d := ⟨0, 0⟩) (by decide)
      have written : (finite s m).resultText = ['0'] := if_pos noUnits
      have zeros := (isZero_iff (finite s m)).mp (decide_eq_true noUnits)
      refine ⟨.plus, n, ?_, ?_, writes.noLeadingZero, ?_⟩
      · rw [written, Sign.put, writes.text_eq]
        rfl
      · rw [written]
        decide
      · rw [writes.round_eq]
        rcases zeros with same | same
        · rw [same]
          decide +kernel
        · rw [same, if_pos rfl]
          rfl
    · obtain ⟨-, digits, least, greatest⟩ := Decimal.shortest_bounds noUnits
      obtain ⟨n, writes⟩ := Decimal.exists_numeral_resultText (d := Decimal.shortest m)
        (Int.le_trans greatest (by decide))
      have written : (finite s m).resultText = s.put (Decimal.shortest m).resultText := if_neg noUnits
      have short := Decimal.length_resultText_le digits least greatest
      have nonzero : finite s m ≠ zero .minus := by
        intro same
        have isZero : (finite s m).isZero = true := (isZero_iff _).mpr (.inr same)
        exact noUnits (of_decide_eq_true isZero)
      refine ⟨s, n, ?_, ?_, writes.noLeadingZero, ?_⟩
      · rw [written, writes.text_eq]
      · rw [written]
        cases s with
        | plus => exact Nat.le_trans short (by decide)
        | minus => exact Nat.succ_le_succ short
      · rw [writes.round_eq, Decimal.round_shortest, actOn_finite, if_neg nonzero]

end Binary64

/-- The result of a finite number has no outer blanks and is not empty. -/
lemma trim_resultText {v : Binary64} (isFinite : v.isFinite = true) :
    v.resultText.trim = v.resultText ∧ v.resultText ≠ [] := by
  obtain ⟨s, n, written, -⟩ := v.exists_numeral isFinite
  rw [written]
  exact ⟨trim_of_kept (kept_put n s), s.put_ne_nil n.text_ne_nil⟩

/-- A negative zero is shown as zero is. -/
lemma resultText_unsigned (v : Binary64) :
    (if v = .zero .minus then .zero .plus else v).resultText = v.resultText := by
  split
  · rename_i same
    rw [same]
    decide +kernel
  · rfl

/-- The calculation of a result gives its number back, minus zero as zero. -/
lemma calculate_resultText {v : Binary64} (isFinite : v.isFinite = true) {settings : Settings}
    (long : 24 ≤ settings.maxLength) (deep : 2 ≤ settings.maxDepth) :
    (calculate settings v.resultText).outcome.map Prod.fst =
      .ok (if v = .zero .minus then .zero .plus else v) := by
  obtain ⟨s, n, written, short, noLeadingZero, value⟩ := v.exists_numeral isFinite
  have kept := kept_put n s
  rw [written] at short
  obtain ⟨ts, tree, wellFormed, evaluates⟩ :=
    wellFormed_put n s noLeadingZero (Nat.le_trans short long) deep
  rw [value] at evaluates
  rw [outcome_calculate, written, canonical_of_kept kept,
    (Reading.classified settings (s.put n.text)).value]
  refine ⟨ts, tree, wellFormed, evaluates, ?_⟩
  split
  · decide +kernel
  · exact isFinite

namespace Panel

/-- The panel's entry is calculated with success. -/
def Succeeds (p : Panel) : Prop :=
  p.entry.trim ≠ [] ∧ ∃ found, (Calculator.calculate p.settings p.entry.trim).outcome = .ok found

/-- A calculation that succeeds leaves its result in the entry, its trace, and no error. -/
lemma calculate_of_outcome {p : Panel} {found : Binary64 × Trace} (nonblank : p.entry.trim ≠ [])
    (outcome : (Calculator.calculate p.settings p.entry.trim).outcome = .ok found) :
    p.calculate = { p with
      entry := found.1.resultText, error := none, trace := some found.2, wantsFocus := true } := by
  have notBlank : ¬ p.entry.trim.isEmpty = true := by
    rw [List.isEmpty_iff]
    exact nonblank
  rw [calculate, if_neg notBlank, outcome]

end Panel

/-- The value of a calculation is finite. -/
lemma isFinite_of_outcome {settings : Settings} {entry : Text} {found : Binary64 × Trace}
    (outcome : (calculate settings entry).outcome = .ok found) : found.1.isFinite = true := by
  have classified := Reading.classified settings (canonical entry)
  rw [← outcome_calculate, outcome] at classified
  obtain ⟨ts, tree, -, -, isFinite⟩ := (classified.value found.1).mp rfl
  exact isFinite

/-- A result is an entry of the same number: it has at most 24 characters and, unless the settings are narrower,
it is calculated to the finite number it was made of, minus zero to zero. So a calculation on the panel that
succeeds can be repeated, and changes neither the entry nor the error. -/
theorem result_is_entry :
    (∀ v : Binary64, v.isFinite = true → v.resultText.length ≤ 24 ∧
      ∀ settings : Settings, 24 ≤ settings.maxLength → 2 ≤ settings.maxDepth →
        (calculate settings v.resultText).outcome.map Prod.fst =
          .ok (if v = .zero .minus then .zero .plus else v)) ∧
    ∀ p : Panel, 24 ≤ p.settings.maxLength → 2 ≤ p.settings.maxDepth → p.Succeeds →
      p.calculate.Succeeds ∧ p.calculate.calculate.entry = p.calculate.entry ∧
        p.calculate.calculate.error = p.calculate.error := by
  constructor
  · intro v isFinite
    obtain ⟨s, n, -, short, -⟩ := v.exists_numeral isFinite
    exact ⟨short, fun settings long deep => calculate_resultText isFinite long deep⟩
  · rintro p long deep ⟨nonblank, found, outcome⟩
    have isFinite := isFinite_of_outcome outcome
    obtain ⟨trimmed, nonempty⟩ := trim_resultText isFinite
    have first := p.calculate_of_outcome nonblank outcome
    have entry : p.calculate.entry = found.1.resultText := by rw [first]
    have error : p.calculate.error = none := by rw [first]
    have settings : p.calculate.settings = p.settings := by rw [first]
    have again := calculate_resultText isFinite long deep
    rw [← settings, ← entry] at again
    rw [← trimmed, ← entry] at nonempty
    cases repeated : (calculate p.calculate.settings p.calculate.entry).outcome with
    | error e =>
      rw [repeated] at again
      cases again
    | ok other =>
      rw [repeated] at again
      have same : other.1 = if found.1 = .zero .minus then .zero .plus else found.1 := Except.ok.inj again
      have keep : p.calculate.entry.trim = p.calculate.entry := by rw [entry, trimmed]
      rw [← keep] at repeated
      have second := p.calculate.calculate_of_outcome nonempty repeated
      refine ⟨⟨nonempty, other, repeated⟩, ?_, ?_⟩
      · rw [second, entry, same, resultText_unsigned]
      · rw [second, error]

/-- A small negative number, shown with an exponent, is read back, and a panel repeats its calculation. -/
theorem result_is_entry_of_small_quotient :
    (Decimal.round .minus ⟨125, -9⟩).resultText = "-1.25e-7".toList ∧
    (calculate {} (Decimal.round .minus ⟨125, -9⟩).resultText).outcome.map Prod.fst =
      .ok (Decimal.round .minus ⟨125, -9⟩) ∧
    (Panel.mk "1÷-3000000".toList none none {} true).calculate.calculate.entry =
      (Panel.mk "1÷-3000000".toList none none {} true).calculate.entry := by
  have isFinite : (Decimal.round .minus ⟨125, -9⟩).isFinite = true := by decide +kernel
  have nonzero : Decimal.round .minus ⟨125, -9⟩ ≠ .zero .minus := by decide +kernel
  have read := (result_is_entry.1 _ isFinite).2 {} (by decide) (by decide)
  rw [if_neg nonzero] at read
  have succeeds : (Panel.mk "1÷-3000000".toList none none {} true).Succeeds := by
    have evaluated : (calculate {} (Text.trim "1÷-3000000".toList)).outcome.toOption.isSome = true := by
      decide +kernel
    refine ⟨by decide, ?_⟩
    cases outcome : (calculate {} (Text.trim "1÷-3000000".toList)).outcome with
    | error e =>
      rw [outcome] at evaluated
      cases evaluated
    | ok found => exact ⟨found, rfl⟩
  have repeated := result_is_entry.2 _ (by decide) (by decide) succeeds
  exact ⟨by decide +kernel, read, repeated.2.1⟩

end Calculator
