import Mathlib.Tactic.ByContra
import Calculator.Token.Lexer
import Calculator.Proofs.Decimal.Numeral

/-!
# Numerals and symbols in a text

The lexer takes a numeral for one token when what follows cannot lengthen it and it has no leading zero. Main
statement: the tokens of a numeral and what follows it are its number and the tokens of what follows
(`Numeral.tokenize_append`). Whatever the text, its tokens are operators, brackets and the numbers of numerals
(`Lexer.token_cases`), none of which is negative (`sign_of_tokenize`).
-/

namespace Calculator

/-! ## The first token -/

/-- A token is put before the tokens of the text after it. -/
lemma tokenize_of_token {c : Char} {rest after : Text} {t : Token} (notBlank : isBlank c = false)
    (found : Lexer.token c rest = .ok (t, after)) : tokenize (c :: rest) = (tokenize after).map (t :: ·) := by
  rw [tokenize, notBlank, if_neg Bool.false_ne_true]
  -- the reader keeps the equation of its token, so the match is split and not rewritten
  split
  · rename_i failed
    rw [found] at failed
    cases failed
  · rename_i same
    rw [found] at same
    cases same
    rfl

namespace Lexer

/-- There are seven symbols of one character. -/
lemma mem_of_single? {c : Char} {t : Token} (single : single? c = some t) :
    c ∈ ['(', ')', '+', '-', '*', '/', '%'] := by
  by_contra absent
  simp only [List.mem_cons, List.not_mem_nil, or_false, not_or] at absent
  simp [single?, absent] at single

/-- Digits are not blank. -/
lemma isBlank_of_isDigit {c : Char} (digit : c.isDigit = true) : isBlank c = false := by
  simp only [Char.isDigit, Bool.and_eq_true, decide_eq_true_eq, ge_iff_le, UInt32.le_iff_toNat_le] at digit
  have below : 48 ≤ c.toNat := digit.1
  have above : c.toNat ≤ 57 := digit.2
  simp only [isBlank, blankRanges, List.any_cons, List.any_nil, Bool.or_false, Bool.or_eq_false_iff,
    decide_eq_false_iff_not]
  omega

/-- A character that starts a numeral is no blank and no symbol. -/
lemma symbol?_of_startsNumeral {c : Char} (starts : startsNumeral c = true) (rest : Text) :
    isBlank c = false ∧ symbol? c rest = none := by
  have notSymbol : single? c = none := by
    cases single : single? c with
    | none => rfl
    | some t =>
      have among := mem_of_single? single
      simp only [List.mem_cons, List.not_mem_nil, or_false] at among
      rcases among with rfl | rfl | rfl | rfl | rfl | rfl | rfl <;> cases starts
  have notDoubled : doubled? c = none := by
    unfold doubled?
    split
    · subst c
      cases starts
    · split
      · subst c
        cases starts
      · rfl
  constructor
  · rw [startsNumeral, Bool.or_eq_true, decide_eq_true_eq] at starts
    rcases starts with digit | rfl
    · exact isBlank_of_isDigit digit
    · decide
  · simp only [symbol?, notDoubled, notSymbol, Option.map_none]

end Lexer

/-! ## Numerals -/

namespace Numeral

/-- A numeral without a point and an exponent is all zeros, or does not start with a zero unless it is one
digit. -/
def NoLeadingZero (n : Numeral) : Prop :=
  n.places = none → n.exponent = none → Lexer.hasLeadingZero n.whole = false

/-- The text that follows does not lengthen the numeral. -/
structure EndsBefore (n : Numeral) (rest : Text) : Prop where
  noDigit : StartsWithNoDigit rest
  noPoint : n.places = none → n.exponent = none → rest.head? ≠ some '.'
  noMark : n.exponent = none → rest.head? ≠ some 'e' ∧ rest.head? ≠ some 'E'

/-- A numeral ends at the end of a text. -/
lemma endsBefore_nil (n : Numeral) : n.EndsBefore [] where
  noDigit := startsWithNoDigit_nil
  noPoint := by simp
  noMark := by simp

variable (n : Numeral) {rest : Text}

/-- A numeral has no text for its places exactly when it has no point. -/
lemma pointText_eq_nil_iff : n.pointText = [] ↔ n.places = none := by
  unfold pointText
  cases n.places <;> simp

/-- A numeral has no text for its exponent exactly when it has none. -/
lemma exponentText_eq_nil_iff : n.exponentText = [] ↔ n.exponent = none := by
  unfold exponentText
  cases n.exponent <;> simp [Exponent.text]

/-- A numeral starts with a character that starts numerals. -/
lemma exists_text_eq_cons : ∃ c tail, n.text = c :: tail ∧ Lexer.startsNumeral c = true := by
  have nonempty := n.nonempty
  unfold text pointText
  cases whole : n.whole with
  | cons c digits =>
    have digit := n.isDigit c (by simp [whole])
    exact ⟨c, _, rfl, by simp [Lexer.startsNumeral, digit]⟩
  | nil =>
    cases places : n.places with
    | none => simp [whole, places] at nonempty
    | some digits => exact ⟨'.', _, rfl, by decide⟩

/-- The sign part of an exponent is its sign. -/
lemma signPart_append (e : Exponent) : Lexer.signPart (e.signText ++ (e.digits ++ rest)) = e.signText := by
  obtain ⟨mark, sign, digits, isMark, isDigit, nonempty⟩ := e
  cases sign with
  | none =>
    cases digits with
    | nil => exact absurd rfl nonempty
    | cons c digits =>
      have digit := isDigit c List.mem_cons_self
      have noSign : ¬ (some c = some '+' ∨ some c = some '-') := by
        rintro (h | h)
        · cases h
          cases digit
        · cases h
          cases digit
      exact if_neg noSign
  | some s =>
    cases s with
    | plus => rfl
    | minus => rfl

section

variable (ends : n.EndsBefore rest)

include ends

/-- The point part behind the whole part of a numeral is its point and places. -/
lemma pointPart_append : Lexer.pointPart (n.pointText ++ (n.exponentText ++ rest)) = n.pointText := by
  have noDigit := n.startsWithNoDigit_exponentText ends.noDigit
  unfold Lexer.pointPart pointText
  cases places : n.places with
  | none =>
    have noPoint : (n.exponentText ++ rest).head? ≠ some '.' := by
      have head := n.head_exponentText
      cases exponent : n.exponentText with
      | nil => exact ends.noPoint places (n.exponentText_eq_nil_iff.mp exponent)
      | cons c text =>
        rintro h
        cases h
        rw [exponent] at head
        exact absurd (head '.' rfl) (by decide)
    simp only [List.nil_append, if_neg noPoint]
  | some text =>
    simp [takeWhile_isDigit_append (n.isPlace text places) noDigit]

/-- The exponent part behind the places of a numeral is its exponent when the numeral ends there. -/
lemma exponentPart_append : Lexer.exponentPart (n.exponentText ++ rest) = .ok n.exponentText := by
  unfold Lexer.exponentPart exponentText
  cases exponent : n.exponent with
  | none => simp [ends.noMark exponent]
  | some e =>
    have isMark : some e.mark = some 'e' ∨ some e.mark = some 'E' := by
      simpa using e.isMark
    have split : e.text ++ rest = e.mark :: (e.signText ++ (e.digits ++ rest)) := by
      simp [Exponent.text]
    have written : ¬ e.digits.isEmpty = true := by
      rw [List.isEmpty_iff]
      exact e.nonempty
    rw [Option.map_some, Option.getD_some, split]
    simp only [List.head?_cons, if_pos isMark, List.tail_cons, signPart_append, List.drop_left,
      takeWhile_isDigit_append e.isDigit ends.noDigit, if_neg written]
    simp [Exponent.text]

/-- A numeral is scanned in full when it ends before what follows. -/
lemma numeral_append (noLeadingZero : n.NoLeadingZero) : Lexer.numeral (n.text ++ rest) = .ok n.text := by
  have noDigit := n.startsWithNoDigit_afterWhole ends.noDigit
  have split : n.text ++ rest = n.whole ++ (n.pointText ++ (n.exponentText ++ rest)) := by
    simp only [text, List.append_assoc]
  have written : ¬ (n.whole.isEmpty && decide (n.pointText.length ≤ 1)) = true := by
    have nonempty := n.nonempty
    unfold pointText
    cases whole : n.whole with
    | cons c digits => simp
    | nil =>
      cases places : n.places with
      | none => simp [whole, places] at nonempty
      | some digits => simpa [whole, places, List.length_pos_iff] using nonempty
  have plain : ¬ (n.pointText.isEmpty && n.exponentText.isEmpty && Lexer.hasLeadingZero n.whole) = true := by
    simp only [Bool.and_eq_true, List.isEmpty_iff, n.pointText_eq_nil_iff, n.exponentText_eq_nil_iff]
    rintro ⟨⟨places, exponent⟩, zero⟩
    rw [noLeadingZero places exponent] at zero
    cases zero
  unfold Lexer.numeral
  rw [split, takeWhile_isDigit_append n.isDigit noDigit, dropWhile_isDigit_append n.isDigit noDigit]
  simp only [n.pointPart_append ends, if_neg written, List.drop_left, n.exponentPart_append ends, bind,
    Except.bind, if_neg plain, text, List.append_assoc]

/-- From its first character on, a numeral is read as its number. -/
lemma token_append (noLeadingZero : n.NoLeadingZero) {c : Char} {tail : Text} (split : n.text = c :: tail) :
    Lexer.token c (tail ++ rest) = .ok (.number (n.decimal.round .plus), rest) := by
  obtain ⟨d, text, same, starts⟩ := n.exists_text_eq_cons
  rw [split] at same
  cases same
  have lexeme := n.numeral_append ends noLeadingZero
  have value := n.binary64_text
  obtain ⟨-, noSymbol⟩ := Lexer.symbol?_of_startsNumeral starts (tail ++ rest)
  rw [split] at lexeme value
  rw [List.cons_append] at lexeme
  simp only [Lexer.token, noSymbol, if_pos starts, Lexer.number, lexeme, bind, Except.bind, value]
  simp

/-- A numeral and what follows it are its number and the tokens of what follows. -/
lemma tokenize_append (noLeadingZero : n.NoLeadingZero) :
    tokenize (n.text ++ rest) = (tokenize rest).map (.number (n.decimal.round .plus) :: ·) := by
  obtain ⟨c, tail, split, starts⟩ := n.exists_text_eq_cons
  obtain ⟨notBlank, -⟩ := Lexer.symbol?_of_startsNumeral starts (tail ++ rest)
  rw [split, List.cons_append]
  exact tokenize_of_token notBlank (n.token_append ends noLeadingZero split)

end

end Numeral

/-! ## The tokens of a text -/

namespace Lexer

variable {c : Char} {rest after : Text} {t : Token}

/-- A symbol of one character is an operator or a bracket. -/
lemma token_of_single? (single : single? c = some t) : (∃ op, t = .op op) ∨ t = .lparen ∨ t = .rparen := by
  have among := mem_of_single? single
  simp only [List.mem_cons, List.not_mem_nil, or_false] at among
  rcases among with rfl | rfl | rfl | rfl | rfl | rfl | rfl <;> cases single <;> simp

/-- A symbol is an operator or a bracket. -/
lemma token_of_symbol? (symbol : symbol? c rest = some (t, after)) :
    (∃ op, t = .op op) ∨ t = .lparen ∨ t = .rparen := by
  unfold symbol? at symbol
  split at symbol
  · split at symbol
    · cases symbol
      exact .inl ⟨_, rfl⟩
    · obtain ⟨u, single, pair⟩ := Option.map_eq_some_iff.mp symbol
      cases pair
      exact token_of_single? single
  · obtain ⟨u, single, pair⟩ := Option.map_eq_some_iff.mp symbol
    cases pair
    exact token_of_single? single

/-- A symbol of one character is the text of its token. -/
lemma text_of_single? (single : single? c = some t) : t.text = [c] := by
  have among := mem_of_single? single
  simp only [List.mem_cons, List.not_mem_nil, or_false] at among
  rcases among with rfl | rfl | rfl | rfl | rfl | rfl | rfl <;> cases single <;> rfl

/-- A doubled symbol is the text of its operator. -/
lemma symbol_of_doubled? {op : BinaryOp} (doubled : doubled? c = some op) : op.symbol = [c, c] := by
  unfold doubled? at doubled
  split at doubled
  · subst c
    cases doubled
    rfl
  · split at doubled
    · subst c
      cases doubled
      rfl
    · cases doubled

/-- A symbol is read from its own text. -/
lemma text_append_of_symbol? (symbol : symbol? c rest = some (t, after)) : t.text ++ after = c :: rest := by
  have alone (mapped : (single? c).map (·, rest) = some (t, after)) : t.text ++ after = c :: rest := by
    obtain ⟨u, single, pair⟩ := Option.map_eq_some_iff.mp mapped
    cases pair
    rw [text_of_single? single]
    rfl
  unfold symbol? at symbol
  split at symbol
  · rename_i op doubled
    split at symbol
    · rename_i twice
      obtain ⟨tail, rfl⟩ := List.head?_eq_some_iff.mp twice
      cases symbol
      rw [Token.text, symbol_of_doubled? doubled]
      rfl
    · exact alone symbol
  · exact alone symbol

/-- A number token is read from a numeral. -/
lemma exists_of_number (found : number c rest = .ok (t, after)) :
    ∃ lexeme v, Binary64.ofNumeral? lexeme = some v ∧ t = .number v := by
  unfold number at found
  cases scanned : numeral (c :: rest) with
  | error e =>
    rw [scanned] at found
    cases found
  | ok lexeme =>
    rw [scanned] at found
    simp only [bind, Except.bind] at found
    split at found
    · rename_i v value
      cases found
      exact ⟨lexeme, v, value, rfl⟩
    · cases found

/-- A token that is read is a symbol or the number of some numeral. -/
lemma symbol_or_number (found : token c rest = .ok (t, after)) :
    symbol? c rest = some (t, after) ∨ ∃ lexeme v, Binary64.ofNumeral? lexeme = some v ∧ t = .number v := by
  unfold token at found
  split at found
  · rename_i symbol
    cases found
    exact .inl symbol
  · split at found
    · exact .inr (exists_of_number found)
    · cases found

/-- A token that is read is an operator, a bracket, or the number of some numeral. -/
lemma token_cases (found : token c rest = .ok (t, after)) :
    ((∃ op, t = .op op) ∨ t = .lparen ∨ t = .rparen) ∨
      ∃ lexeme v, Binary64.ofNumeral? lexeme = some v ∧ t = .number v :=
  (symbol_or_number found).imp token_of_symbol? id

end Lexer

/-- Every token of a text is read from one of its characters on. -/
lemma exists_token_of_mem {text : Text} {ts : List Token} (tokens : tokenize text = .ok ts) {t : Token}
    (mem : t ∈ ts) : ∃ c ∈ text, ∃ rest after, Lexer.token c rest = .ok (t, after) := by
  fun_induction tokenize text generalizing ts with
  | case1 =>
    cases tokens
    exact absurd mem List.not_mem_nil
  | case2 c rest blank ih =>
    obtain ⟨d, inside, elsewhere⟩ := ih tokens mem
    exact ⟨d, List.mem_cons_of_mem c inside, elsewhere⟩
  | case3 c rest notBlank e failed => cases tokens
  | case4 c rest notBlank u after found ih =>
    cases others : tokenize after with
    | error e =>
      rw [others] at tokens
      cases tokens
    | ok us =>
      rw [others] at tokens
      cases tokens
      rcases List.mem_cons.mp mem with rfl | mem
      · exact ⟨c, List.mem_cons_self, rest, after, found⟩
      · obtain ⟨d, inside, elsewhere⟩ := ih others mem
        exact ⟨d, List.mem_cons_of_mem c ((Lexer.suffix_of_token found).mem inside), elsewhere⟩

/-- The sign of a decimal is kept when it is rounded. -/
lemma Decimal.sign_round (s : Sign) (d : Decimal) : (d.round s).sign = s := by
  have units (num den : Nat) : (Binary64.ofUnits s num den).sign = s := by
    unfold Binary64.ofUnits
    split
    · rfl
    · rfl
  unfold Decimal.round
  split
  · exact units 0 1
  · split
    · rfl
    · split
      · exact units _ _
      · exact units _ _

/-- The numbers among the tokens of a text are rounded decimals. -/
lemma exists_decimal_of_tokenize {text : Text} {ts : List Token} (tokens : tokenize text = .ok ts) {v : Binary64}
    (mem : .number v ∈ ts) : ∃ d : Decimal, v = d.round .plus := by
  obtain ⟨c, -, rest, after, found⟩ := exists_token_of_mem tokens mem
  rcases Lexer.token_cases found with (⟨op, same⟩ | same | same) | ⟨lexeme, w, value, same⟩
  · cases same
  · cases same
  · cases same
  · cases same
    obtain ⟨d, -, rfl⟩ := Option.map_eq_some_iff.mp value
    exact ⟨d, rfl⟩

/-- Numbers carry no minus: a text writes it as a token of its own. -/
lemma sign_of_tokenize {text : Text} {ts : List Token} (tokens : tokenize text = .ok ts) {v : Binary64}
    (mem : .number v ∈ ts) : v.sign = .plus := by
  obtain ⟨d, rfl⟩ := exists_decimal_of_tokenize tokens mem
  exact Decimal.sign_round .plus d

end Calculator
