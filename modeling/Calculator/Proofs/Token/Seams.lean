import Mathlib.Data.List.TakeWhile
import Calculator.Grammar
import Calculator.Proofs.Decimal.Layout

/-!
# Texts side by side

A character that can neither lengthen a numeral nor double an operator breaks a text into two that are read one
after the other. Main statement: the tokens of a text that is broken are those of the part before the break,
then those of the part from it on, and the first error of the two is the error of the whole
(`tokenize_append_of_breaks`). So blanks between two texts keep them apart (`tokenize_blank_separated`), the blanks
around a text do not matter (`tokenize_trim`), and a text in brackets keeps its tokens (`tokenize_group`). The texts of
the other tokens are read back as these tokens.
-/

namespace Calculator

namespace Lexer

/-- The character ends every lexeme that stands before it. -/
structure Breaks (c : Char) : Prop where
  noDigit : c.isDigit = false
  noPart : c ∉ ['.', 'e', 'E', '+', '-', '*', '/']

/-- A closing bracket ends every lexeme before it. -/
lemma breaks_rparen : Breaks ')' :=
  ⟨rfl, by decide⟩

/-- A blank ends every lexeme before it. -/
lemma Breaks.of_isBlank {c : Char} (blank : isBlank c = true) : Breaks c where
  noDigit := by
    rw [Bool.eq_false_iff]
    intro digit
    rw [isBlank_of_isDigit digit] at blank
    cases blank
  noPart := by
    intro part
    simp only [List.mem_cons, List.not_mem_nil, or_false] at part
    rcases part with rfl | rfl | rfl | rfl | rfl | rfl | rfl <;> cases blank

/-! ## What a lexeme takes from a text -/

/-- A run at the front of a text ends before a character that is no part of it. -/
lemma takeWhile_append_cons {p : Char → Bool} {c : Char} (stop : p c = false) (text rest : Text) :
    (text ++ c :: rest).takeWhile p = text.takeWhile p := by
  induction text with
  | nil => simp [stop]
  | cons d text ih => simp [List.takeWhile_cons, ih]

/-- What is behind a run at the front of a text keeps a character that is no part of it. -/
lemma dropWhile_append_cons {p : Char → Bool} {c : Char} (stop : p c = false) (text rest : Text) :
    (text ++ c :: rest).dropWhile p = text.dropWhile p ++ c :: rest := by
  induction text with
  | nil => simp [stop]
  | cons d text ih =>
    by_cases goes : p d = true
    · simp [goes, ih]
    · simp [goes]

/-- A prefix of the rest makes the front a longer prefix of the whole. -/
lemma append_isPrefix {front next rest text : Text} (split : front ++ rest = text) (second : next <+: rest) :
    front ++ next <+: text := by
  rw [← split]
  exact (List.prefix_append_right_inj front).mpr second

/-- The point part is at the front of the text. -/
lemma pointPart_isPrefix (text : Text) : pointPart text <+: text := by
  unfold pointPart
  split
  · rename_i point
    obtain ⟨tail, rfl⟩ := List.head?_eq_some_iff.mp point
    exact (List.prefix_cons_inj '.').mpr (List.takeWhile_prefix _)
  · exact List.nil_prefix

/-- The sign part is at the front of the text. -/
lemma signPart_isPrefix (text : Text) : signPart text <+: text := by
  unfold signPart
  split
  · exact List.take_prefix 1 text
  · exact List.nil_prefix

/-- The exponent part is at the front of the text. -/
lemma exponentPart_isPrefix {text exponent : Text} (scanned : exponentPart text = .ok exponent) :
    exponent <+: text := by
  unfold exponentPart at scanned
  split at scanned
  · rename_i mark
    cases text with
    | nil => simp at mark
    | cons m tail =>
      dsimp only [List.tail_cons] at scanned
      by_cases noDigits : ((tail.drop (signPart tail).length).takeWhile Char.isDigit).isEmpty = true
      · rw [if_pos noDigits] at scanned
        cases scanned
      · rw [if_neg noDigits] at scanned
        cases scanned
        refine (List.prefix_cons_inj m).mpr ?_
        exact append_isPrefix (List.prefix_iff_eq_append.mp (signPart_isPrefix tail)) (List.takeWhile_prefix _)
  · cases scanned
    exact List.nil_prefix

/-- A numeral is the start of the text that it is read from. -/
lemma numeral_isPrefix {text lexeme : Text} (scanned : numeral text = .ok lexeme) : lexeme <+: text := by
  unfold numeral at scanned
  dsimp only at scanned
  split at scanned
  · cases scanned
  · cases exponent : exponentPart
        ((text.dropWhile Char.isDigit).drop (pointPart (text.dropWhile Char.isDigit)).length) with
    | error e =>
      rw [exponent] at scanned
      cases scanned
    | ok written =>
      rw [exponent] at scanned
      simp only [bind, Except.bind] at scanned
      split at scanned
      · cases scanned
      · cases scanned
        have point := List.prefix_iff_eq_append.mp (pointPart_isPrefix (text.dropWhile Char.isDigit))
        rw [List.append_assoc]
        exact append_isPrefix List.takeWhile_append_dropWhile
          (append_isPrefix point (exponentPart_isPrefix exponent))

/-! ## A break after a lexeme -/

section

variable {c : Char} (breaks : Breaks c)

include breaks

/-- A character that ends lexemes is no part of any. -/
lemma Breaks.ne {d : Char} (part : d ∈ ['.', 'e', 'E', '+', '-', '*', '/']) : c ≠ d := by
  rintro rfl
  exact breaks.noPart part

/-- The point part does not reach beyond a character that ends lexemes. -/
lemma pointPart_append (text rest : Text) : pointPart (text ++ c :: rest) = pointPart text := by
  cases text with
  | nil => simp [pointPart, breaks.ne (d := '.') (by decide)]
  | cons d text => simp [pointPart, takeWhile_append_cons breaks.noDigit]

/-- The sign part does not reach beyond a character that ends lexemes. -/
lemma signPart_append (text rest : Text) : signPart (text ++ c :: rest) = signPart text := by
  cases text with
  | nil => simp [signPart, breaks.ne (d := '+') (by decide), breaks.ne (d := '-') (by decide)]
  | cons d text => simp [signPart]

/-- The exponent part does not reach beyond a character that ends lexemes. -/
lemma exponentPart_append (text rest : Text) : exponentPart (text ++ c :: rest) = exponentPart text := by
  cases text with
  | nil => simp [exponentPart, breaks.ne (d := 'e') (by decide), breaks.ne (d := 'E') (by decide)]
  | cons d text =>
    have short : (signPart text).length ≤ text.length := (signPart_isPrefix text).length_le
    simp [exponentPart, signPart_append breaks, List.drop_append_of_le_length short,
      takeWhile_append_cons breaks.noDigit]

/-- A numeral does not reach beyond a character that ends lexemes. -/
lemma numeral_append (text rest : Text) : numeral (text ++ c :: rest) = numeral text := by
  have short := (pointPart_isPrefix (text.dropWhile Char.isDigit)).length_le
  simp only [numeral, takeWhile_append_cons breaks.noDigit, dropWhile_append_cons breaks.noDigit,
    pointPart_append breaks, List.drop_append_of_le_length short, exponentPart_append breaks]

/-- A symbol does not reach beyond a character that ends lexemes. -/
lemma symbol?_append (d : Char) (text rest : Text) :
    symbol? d (text ++ c :: rest) = (symbol? d text).map fun found => (found.1, found.2 ++ c :: rest) := by
  unfold symbol?
  cases doubled : doubled? d with
  | none => cases single? d <;> rfl
  | some op =>
    cases text with
    | nil =>
      have part : d ∈ ['.', 'e', 'E', '+', '-', '*', '/'] := by
        unfold doubled? at doubled
        split at doubled
        · subst d
          decide
        · split at doubled
          · subst d
            decide
          · cases doubled
      cases single? d <;> simp [breaks.ne part]
    | cons e text =>
      by_cases twice : e = d
      · simp [twice]
      · cases single? d <;> simp [twice]

/-- A number does not reach beyond a character that ends lexemes. -/
lemma number_append (d : Char) (text rest : Text) :
    number d (text ++ c :: rest) = (number d text).map fun found => (found.1, found.2 ++ c :: rest) := by
  have same := numeral_append breaks (d :: text) rest
  rw [List.cons_append] at same
  rw [number, number, same]
  cases scanned : numeral (d :: text) with
  | error e => rfl
  | ok lexeme =>
    have short := (numeral_isPrefix scanned).length_le
    simp only [bind, Except.bind]
    cases Binary64.ofNumeral? lexeme with
    | none => rfl
    | some v =>
      have within : lexeme.length - 1 ≤ text.length := Nat.sub_le_of_le_add short
      simp only [Except.map, List.drop_append_of_le_length within]

/-- A token does not reach beyond a character that ends lexemes. -/
lemma token_append (d : Char) (text rest : Text) :
    token d (text ++ c :: rest) = (token d text).map fun found => (found.1, found.2 ++ c :: rest) := by
  rw [token, token, symbol?_append breaks]
  cases symbol? d text with
  | some found => rfl
  | none =>
    simp only [Option.map_none]
    split
    · exact number_append breaks d text rest
    · rfl

end

end Lexer

/-! ## Reading the parts one after the other -/

/-- The empty text has no tokens. -/
lemma tokenize_nil : tokenize [] = .ok [] := by
  rw [tokenize]

/-- A blank at the front is skipped. -/
lemma tokenize_of_isBlank {c : Char} (blank : isBlank c = true) (rest : Text) :
    tokenize (c :: rest) = tokenize rest := by
  rw [tokenize, if_pos blank]

/-- The error of the first token is that of the text. -/
lemma tokenize_of_token_error {c : Char} {rest : Text} {e : LexError} (notBlank : isBlank c = false)
    (failed : Lexer.token c rest = .error e) : tokenize (c :: rest) = .error e := by
  rw [tokenize, notBlank, if_neg Bool.false_ne_true]
  split
  · rename_i same
    rw [failed] at same
    cases same
    rfl
  · rename_i found
    rw [failed] at found
    cases found

/-- A text that is broken is read up to the break, then from the break on. -/
lemma tokenize_append_of_breaks {c : Char} (breaks : Lexer.Breaks c) (text rest : Text) :
    tokenize (text ++ c :: rest) =
      (tokenize text).bind fun ts => (tokenize (c :: rest)).map (ts ++ ·) := by
  -- a lexeme may take several characters, so the induction is along the reading and not on the text
  induction text using tokenize.induct with
  | case1 =>
    rw [tokenize_nil, List.nil_append]
    cases tokenize (c :: rest) <;> rfl
  | case2 d text blank ih =>
    rw [List.cons_append, tokenize_of_isBlank blank, tokenize_of_isBlank blank]
    exact ih
  | case3 d text notBlank e failed =>
    rw [Bool.not_eq_true] at notBlank
    have token := Lexer.token_append breaks d text rest
    rw [failed] at token
    rw [List.cons_append, tokenize_of_token_error notBlank token, tokenize_of_token_error notBlank failed]
    rfl
  | case4 d text notBlank t after found ih =>
    rw [Bool.not_eq_true] at notBlank
    have token := Lexer.token_append breaks d text rest
    rw [found] at token
    rw [List.cons_append, tokenize_of_token notBlank token, tokenize_of_token notBlank found, ih]
    cases tokenize after with
    | error e => rfl
    | ok ts => cases tokenize (c :: rest) <;> rfl

/-! ## Blanks -/

/-- Leading blanks are skipped. -/
lemma tokenize_blanks_append {blanks : Text} (blank : ∀ c ∈ blanks, isBlank c = true) (rest : Text) :
    tokenize (blanks ++ rest) = tokenize rest := by
  induction blanks with
  | nil => rfl
  | cons c blanks ih =>
    obtain ⟨blank, others⟩ := List.forall_mem_cons.mp blank
    rw [List.cons_append, tokenize_of_isBlank blank, ih others]

/-- A text is read up to the blanks in it, then from behind them on. -/
lemma tokenize_append_blanks_append {blanks : Text} (nonempty : blanks ≠ []) (blank : ∀ c ∈ blanks, isBlank c = true)
    (text rest : Text) :
    tokenize (text ++ (blanks ++ rest)) = (tokenize text).bind fun ts => (tokenize rest).map (ts ++ ·) := by
  have skipped := tokenize_blanks_append blank rest
  cases blanks with
  | nil => exact absurd rfl nonempty
  | cons c blanks =>
    have breaks : Lexer.Breaks c := .of_isBlank (blank c List.mem_cons_self)
    rw [List.cons_append] at skipped ⊢
    rw [tokenize_append_of_breaks breaks, skipped]

/-- Blanks at the end are skipped. -/
lemma tokenize_append_blanks (text : Text) {blanks : Text} (blank : ∀ c ∈ blanks, isBlank c = true) :
    tokenize (text ++ blanks) = tokenize text := by
  by_cases empty : blanks = []
  · rw [empty, List.append_nil]
  · have apart := tokenize_append_blanks_append empty blank text []
    rw [List.append_nil, tokenize_nil] at apart
    rw [apart]
    cases tokenize text with
    | error e => rfl
    | ok ts => simp [Except.bind, Except.map]

/-- Blanks between two texts keep them apart: the first error of the two texts is the error of the whole, and without
errors the tokens of the one are followed by those of the other. -/
theorem tokenize_blank_separated {blanks : Text} (nonempty : blanks ≠ []) (blank : ∀ c ∈ blanks, isBlank c = true)
    (left right : Text) :
    tokenize (left ++ blanks ++ right) =
      (tokenize left).bind fun ts => (tokenize right).map (ts ++ ·) := by
  rw [List.append_assoc]
  exact tokenize_append_blanks_append nonempty blank left right

/-- Stars that are kept apart stay two, and an exponent is not sought behind a blank. -/
theorem tokenize_blank_separated_of_tab :
    (∀ c ∈ ['\t', ' '], isBlank c = true) ∧
      tokenize "2*\t *3".toList =
        .ok [.number (Decimal.round .plus ⟨2, 0⟩), .op .mul, .op .mul, .number (Decimal.round .plus ⟨3, 0⟩)] ∧
      tokenize "1e\t 5".toList = .error .incompleteExponent := by
  have nonempty : ['\t', ' '] ≠ [] := List.cons_ne_nil _ _
  have blank : ∀ c ∈ ['\t', ' '], isBlank c = true :=
    List.forall_mem_cons.mpr ⟨by decide, List.forall_mem_singleton.mpr (by decide)⟩
  refine ⟨blank, (tokenize_blank_separated nonempty blank "2*".toList "*3".toList).trans ?_,
    (tokenize_blank_separated nonempty blank "1e".toList "5".toList).trans ?_⟩
  · decide +kernel
  · decide +kernel

/-- Removing the blanks at the front changes no tokens. -/
lemma tokenize_dropWhile_isBlank (text : Text) : tokenize (text.dropWhile isBlank) = tokenize text := by
  induction text with
  | nil => rfl
  | cons c text ih =>
    by_cases blank : isBlank c = true
    · rw [List.dropWhile_cons_of_pos blank, tokenize_of_isBlank blank, ih]
    · rw [List.dropWhile_cons_of_neg blank]

/-- The blanks around a text are no part of its tokens. -/
lemma tokenize_trim (text : Text) : tokenize text.trim = tokenize text := by
  obtain ⟨blanks, split, blank⟩ := Text.exists_trimEnd_append (text.dropWhile isBlank)
  rw [Text.trim, ← tokenize_append_blanks _ (List.all_eq_true.mp blank), ← split, tokenize_dropWhile_isBlank]

/-! ## The texts of tokens -/

/-- A symbol at the front is a token of its own. -/
lemma tokenize_of_symbol? {c : Char} {rest after : Text} {t : Token} (notBlank : isBlank c = false)
    (found : Lexer.symbol? c rest = some (t, after)) : tokenize (c :: rest) = (tokenize after).map (t :: ·) := by
  refine tokenize_of_token notBlank ?_
  rw [Lexer.token, found]

/-- An opening bracket is a token of its own. -/
lemma tokenize_lparen (rest : Text) : tokenize ('(' :: rest) = (tokenize rest).map (.lparen :: ·) :=
  tokenize_of_symbol? (by decide) rfl

/-- A closing bracket is a token of its own. -/
lemma tokenize_rparen (rest : Text) : tokenize (')' :: rest) = (tokenize rest).map (.rparen :: ·) :=
  tokenize_of_symbol? (by decide) rfl

/-- The brackets around a text and what follows them leave its tokens as they are. -/
lemma tokenize_group {inside rest : Text} {ts us : List Token} (tokens : tokenize inside = .ok ts)
    (after : tokenize rest = .ok us) :
    tokenize ('(' :: inside ++ ')' :: rest) = .ok (.lparen :: ts ++ .rparen :: us) := by
  rw [List.cons_append, tokenize_lparen, tokenize_append_of_breaks Lexer.breaks_rparen, tokens, tokenize_rparen,
    after]
  rfl

/-- A plus or minus is a token of its own. -/
lemma tokenize_sign (s : Sign) (rest : Text) : tokenize (s.symbol :: rest) = (tokenize rest).map (s.written :: ·) := by
  cases s with
  | plus => exact tokenize_of_symbol? (by decide) rfl
  | minus => exact tokenize_of_symbol? (by decide) rfl

/-- An operator is read whole, unless what follows could double it. -/
lemma tokenize_operator (op : BinaryOp) {rest : Text} (noStar : rest.head? ≠ some '*')
    (noSlash : rest.head? ≠ some '/') : tokenize (op.symbol ++ rest) = (tokenize rest).map (.op op :: ·) := by
  cases op with
  | add => exact tokenize_of_symbol? (by decide) rfl
  | sub => exact tokenize_of_symbol? (by decide) rfl
  | mod => exact tokenize_of_symbol? (by decide) rfl
  | floorDiv => exact tokenize_of_symbol? (by decide) rfl
  | pow => exact tokenize_of_symbol? (by decide) rfl
  | mul => exact tokenize_of_symbol? (by decide) (by simp [Lexer.symbol?, Lexer.doubled?, noStar, Lexer.single?])
  | div => exact tokenize_of_symbol? (by decide) (by simp [Lexer.symbol?, Lexer.doubled?, noSlash, Lexer.single?])

/-- A positive number as tokens and trees show it is read back as one token. -/
lemma tokenize_number (m : Magnitude) :
    tokenize (Binary64.finite .plus m).text = .ok [.number (.finite .plus m)] := by
  obtain ⟨n, writes⟩ := Decimal.exists_numeral_shortest m
  have tokens := n.tokenize_append n.endsBefore_nil writes.noLeadingZero
  rw [List.append_nil, writes.text_eq, writes.round_eq, Decimal.round_shortest, tokenize] at tokens
  exact tokens

end Calculator
