import Calculator.Token
import Calculator.Decimal.Numeral

/-!
# Reading tokens

A text is read from left to right, a lexeme at a time. Blanks separate lexemes. A doubled operator is taken
before a single one. A numeral takes the longest run that it can: digits, a point and its digits, and, after
an `e`, an exponent that has to be complete. An integer may not start with a zero unless it is all zeros.

Main statements: what follows a token is an end of the text that it is read from (`Lexer.suffix_of_token`), and
shorter, so reading ends.
-/

namespace Calculator

/-- Why a text is not a sequence of lexemes. -/
inductive LexError where
  | unexpected (c : Char)
  | lonePoint
  | incompleteExponent
  | leadingZero (numeral : Text)
  | malformedNumeral (numeral : Text)
deriving DecidableEq

/-- The message of a lexical error. -/
def LexError.message : LexError → String
  | unexpected c => "caractère inattendu: '" ++ String.singleton c ++ "'"
  | lonePoint => "nombre invalide: '.' isolé"
  | incompleteExponent => "exposant incomplet"
  | leadingZero numeral => "zéros de tête interdits: " ++ String.ofList numeral
  | malformedNumeral numeral => "nombre invalide: " ++ String.ofList numeral

namespace Lexer

/-- The operator that a character writes when it is doubled. -/
def doubled? (c : Char) : Option BinaryOp :=
  if c = '*' then some .pow
  else if c = '/' then some .floorDiv
  else none

/-- The token that a character writes on its own. -/
def single? (c : Char) : Option Token :=
  if c = '(' then some .lparen
  else if c = ')' then some .rparen
  else if c = '+' then some (.op .add)
  else if c = '-' then some (.op .sub)
  else if c = '*' then some (.op .mul)
  else if c = '/' then some (.op .div)
  else if c = '%' then some (.op .mod)
  else none

/-- The operator or bracket that starts with a character, and the text after it. -/
def symbol? (c : Char) (rest : Text) : Option (Token × Text) :=
  match doubled? c with
  | some op => if rest.head? = some c then some (.op op, rest.tail) else (single? c).map (·, rest)
  | none => (single? c).map (·, rest)

/-- The point and the digits after it, when a text starts with a point. -/
def pointPart (text : Text) : Text :=
  if text.head? = some '.' then '.' :: text.tail.takeWhile Char.isDigit else []

/-- The sign that a text starts with, if any. -/
def signPart (text : Text) : Text :=
  if text.head? = some '+' ∨ text.head? = some '-' then text.take 1 else []

/-- The mark, sign and digits of the exponent, when a text starts with an exponent mark. -/
def exponentPart (text : Text) : Except LexError Text :=
  if text.head? = some 'e' ∨ text.head? = some 'E' then
    let sign := signPart text.tail
    let digits := (text.tail.drop sign.length).takeWhile Char.isDigit
    if digits.isEmpty then .error .incompleteExponent
    else .ok (text.take 1 ++ sign ++ digits)
  else .ok []

/-- Whether a run of digits starts with a zero, has more digits, and is not all zeros. -/
def hasLeadingZero (digits : Text) : Bool :=
  decide (1 < digits.length) && decide (digits.head? = some '0') && digits.any (· ≠ '0')

/-- The numeral that a text starts with. -/
def numeral (text : Text) : Except LexError Text :=
  let whole := text.takeWhile Char.isDigit
  let afterWhole := text.dropWhile Char.isDigit
  let point := pointPart afterWhole
  if whole.isEmpty && decide (point.length ≤ 1) then .error .lonePoint
  else do
    let exponent ← exponentPart (afterWhole.drop point.length)
    if point.isEmpty && exponent.isEmpty && hasLeadingZero whole then
      .error (.leadingZero whole)
    else .ok (whole ++ point ++ exponent)

/-- Whether a character starts a numeral. -/
def startsNumeral (c : Char) : Bool :=
  c.isDigit || decide (c = '.')

/-- The number that the numeral starting with a character writes, and the text after it. -/
def number (c : Char) (rest : Text) : Except LexError (Token × Text) := do
  let lexeme ← numeral (c :: rest)
  match Binary64.ofNumeral? lexeme with
  | some value => .ok (.number value, rest.drop (lexeme.length - 1))
  | none => .error (.malformedNumeral lexeme)

/-- The token that starts with a character that is not blank, and the text after it. -/
def token (c : Char) (rest : Text) : Except LexError (Token × Text) :=
  match symbol? c rest with
  | some found => .ok found
  | none => if startsNumeral c then number c rest else .error (.unexpected c)

/-- What follows a symbol ends what follows its first character. -/
theorem suffix_of_symbol? {c : Char} {rest after : Text} {t : Token}
    (found : symbol? c rest = some (t, after)) : after <:+ rest := by
  unfold symbol? at found
  split at found
  · split at found
    · cases found
      exact List.tail_suffix rest
    · obtain ⟨_, _, pair⟩ := Option.map_eq_some_iff.mp found
      cases pair
      exact List.suffix_refl rest
  · obtain ⟨_, _, pair⟩ := Option.map_eq_some_iff.mp found
    cases pair
    exact List.suffix_refl rest

/-- What follows a number ends what follows its first character. -/
theorem suffix_of_number {c : Char} {rest after : Text} {t : Token}
    (found : number c rest = .ok (t, after)) : after <:+ rest := by
  unfold number at found
  cases scanned : numeral (c :: rest) with
  | error e => simp [scanned, bind, Except.bind] at found
  | ok lexeme =>
    simp only [scanned, bind, Except.bind] at found
    split at found
    · cases found
      exact List.drop_suffix _ rest
    · cases found

/-- What follows a token ends what follows its first character. -/
theorem suffix_of_token {c : Char} {rest after : Text} {t : Token}
    (found : token c rest = .ok (t, after)) : after <:+ rest := by
  unfold token at found
  split at found
  · rename_i symbol
    cases found
    exact suffix_of_symbol? symbol
  · split at found
    · exact suffix_of_number found
    · cases found

/-- What follows a token is not longer than what follows its first character. -/
theorem length_le_of_token {c : Char} {rest after : Text} {t : Token}
    (found : token c rest = .ok (t, after)) : after.length ≤ rest.length :=
  (suffix_of_token found).length_le

end Lexer

/-- The tokens of a text, or the first lexical error in it. -/
def tokenize : Text → Except LexError (List Token)
  | [] => .ok []
  | c :: rest =>
    if isBlank c then tokenize rest
    else
      match _ : Lexer.token c rest with
      | .error e => .error e
      | .ok (t, after) => (tokenize after).map (t :: ·)
termination_by text => text.length
decreasing_by
  · simp
  · have le : after.length ≤ rest.length := Lexer.length_le_of_token (by assumption)
    simp only [List.length_cons]
    omega

/-! The longest lexeme is taken first, and a second point starts a new numeral. -/

example : (tokenize "2***3".toList).toOption.map Token.listText = some "2 ** * 3".toList := by
  decide +kernel

example : (tokenize "1.2.3".toList).toOption.map Token.listText = some "1.2 0.3".toList := by
  decide +kernel

example : (tokenize "00".toList).toOption.map Token.listText = some ['0'] := by
  decide +kernel

example : (tokenize "007".toList).toOption = none := by
  decide +kernel

end Calculator
