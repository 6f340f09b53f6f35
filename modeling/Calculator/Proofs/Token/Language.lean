import Calculator.Proofs.Token.Seams

/-!
# The language of tokens

A text that has tokens is a sequence of blanks and lexemes. A lexeme is an operator, a bracket or a numeral, and it is
the longest one that starts where it stands: `Lexer.Reads` says so without the scanner. What the scanner takes for a
numeral is one that nothing behind it lengthens (`Lexer.exists_numeral`), so it reads a token exactly when the language
takes one (`Lexer.token_eq_ok_iff`), and it goes on as far as the language does (`Lexer.Reads.tokenize`,
`Lexer.exists_reads`). Main statement: `tokenize_ok_iff_reads`.
-/

namespace Calculator

/-! ## Lexemes -/

namespace Numeral

/-- An exponent mark behind the numeral is part of it. -/
def TakesMark (n : Numeral) (after : Text) : Prop :=
  n.exponent = none → after.head? ≠ some 'e' ∧ after.head? ≠ some 'E'

/-- Several digits without a point and an exponent start with a zero only when all of them are zeros. -/
def WellLed (n : Numeral) : Prop :=
  n.places = none → n.exponent = none → 1 < n.whole.length → n.whole.head? = some '0' → ∀ c ∈ n.whole, c = '0'

end Numeral

namespace Lexer

/-- The text of an operator or a bracket writes its token. -/
inductive Symbol : Text → Token → Prop where
  | operator {op : BinaryOp} :
    Symbol op.symbol (.op op)
  | lparen :
    Symbol ['('] .lparen
  | rparen :
    Symbol [')'] .rparen

/-- A lexeme is the text of an operator or a bracket, or a numeral. -/
def IsLexeme (text : Text) : Prop :=
  (∃ t, Symbol text t) ∨ ∃ n : Numeral, n.text = text

/-- No lexeme that starts where this one does is longer. -/
def Longest (lexeme after : Text) : Prop :=
  ∀ other, IsLexeme other → other <+: lexeme ++ after → other.length ≤ lexeme.length

/-- The lexeme is taken for the token when it stands before the rest of a text. -/
inductive Takes : Text → Token → Text → Prop where
  | symbol {lexeme t after} :
    Symbol lexeme t →
    Longest lexeme after →
    Takes lexeme t after
  | numeral {n : Numeral} {v after} :
    Longest n.text after →
    n.TakesMark after →
    n.WellLed →
    Binary64.ofNumeral? n.text = some v →
    Takes n.text (.number v) after

/-- From its start up to the rest, the text consists of blanks and the lexemes of the tokens. -/
inductive Reads : Text → List Token → Text → Prop where
  | done {text} :
    Reads text [] text
  | blank {c text ts rest} :
    isBlank c = true →
    Reads text ts rest →
    Reads (c :: text) ts rest
  | lexeme {lexeme t after ts rest} :
    Takes lexeme t after →
    Reads after ts rest →
    Reads (lexeme ++ after) (t :: ts) rest

variable {c : Char} {text lexeme rest after : Text} {t : Token}

/-- What is behind the digits at the front of a text starts with no digit. -/
lemma startsWithNoDigit_dropWhile (text : Text) : StartsWithNoDigit (text.dropWhile Char.isDigit) := by
  intro c isHead
  have stopped := List.head?_dropWhile_not Char.isDigit text
  rw [isHead] at stopped
  simpa using stopped

/-- A symbol starts with a character that is no blank and starts no numeral. -/
lemma Symbol.exists_eq_cons (symbol : Symbol lexeme t) :
    ∃ c tail, lexeme = c :: tail ∧ isBlank c = false ∧ startsNumeral c = false := by
  cases symbol with
  | @operator op => cases op <;> exact ⟨_, _, rfl, by decide, by decide⟩
  | lparen => exact ⟨_, _, rfl, by decide, by decide⟩
  | rparen => exact ⟨_, _, rfl, by decide, by decide⟩

end Lexer

/-! ## The longest numeral -/

namespace Numeral

variable {n : Numeral} {c : Char} {after rest : Text}

/-- No zero leads a numeral exactly when it is led well. -/
lemma noLeadingZero_iff : n.NoLeadingZero ↔ n.WellLed := by
  simp [NoLeadingZero, WellLed, Lexer.hasLeadingZero]

/-- What ends a numeral is seen from its first character. -/
lemma EndsBefore.of_head? (ends : n.EndsBefore after) (same : rest.head? = after.head?) : n.EndsBefore rest where
  noDigit := by
    unfold StartsWithNoDigit
    rw [same]
    exact ends.noDigit
  noPoint := by
    rw [same]
    exact ends.noPoint
  noMark := by
    rw [same]
    exact ends.noMark

/-- A text starts with one numeral only that ends before the rest of it. -/
lemma EndsBefore.text_eq {m : Numeral} (ends : n.EndsBefore after) (endsOther : m.EndsBefore rest)
    (same : n.text ++ after = m.text ++ rest) : n.text = m.text := by
  have digits := n.startsWithNoDigit_afterWhole ends.noDigit
  have digitsOther := m.startsWithNoDigit_afterWhole endsOther.noDigit
  simp only [text, List.append_assoc] at same ⊢
  have whole : n.whole = m.whole := by
    rw [← takeWhile_isDigit_append n.isDigit digits, same, takeWhile_isDigit_append m.isDigit digitsOther]
  rw [whole] at same ⊢
  have tail := List.append_cancel_left same
  have point : n.pointText = m.pointText := by
    rw [← n.pointPart_append ends, tail, m.pointPart_append endsOther]
  rw [point] at tail ⊢
  have exponent := n.exponentPart_append ends
  rw [List.append_cancel_left tail, m.exponentPart_append endsOther] at exponent
  rw [Except.ok.inj exponent]

/-- Digits and, where there is none, a point lengthen a numeral. -/
lemma exists_text_append (n : Numeral)
    (more : c.isDigit = true ∨ c = '.' ∧ n.places = none ∧ n.exponent = none) :
    ∃ m : Numeral, m.text = n.text ++ [c] := by
  obtain ⟨whole, places, exponent, isDigit, isPlace, nonempty⟩ := n
  have appended {digits : Text} (areDigits : ∀ d ∈ digits, d.isDigit = true) (digit : c.isDigit = true) :
      ∀ d ∈ digits ++ [c], d.isDigit = true :=
    List.forall_mem_append.mpr ⟨areDigits, List.forall_mem_singleton.mpr digit⟩
  rcases more with digit | ⟨rfl, noPlaces, noExponent⟩
  · cases exponent with
    | some e =>
      refine ⟨⟨whole, places, some ⟨e.mark, e.sign, e.digits ++ [c], e.isMark, appended e.isDigit digit, by simp⟩,
        isDigit, isPlace, nonempty⟩, ?_⟩
      simp [text, exponentText, pointText, Exponent.text, Exponent.signText]
    | none =>
      cases places with
      | some digits =>
        refine ⟨⟨whole, some (digits ++ [c]), none, isDigit, ?_, by simp⟩, ?_⟩
        · rintro _ ⟨⟩
          exact appended (isPlace digits rfl) digit
        · simp [text, exponentText, pointText]
      | none =>
        refine ⟨⟨whole ++ [c], none, none, appended isDigit digit, by simp, by simp⟩, ?_⟩
        simp [text, exponentText, pointText]
  · cases noPlaces
    cases noExponent
    refine ⟨⟨whole, some [], none, isDigit, ?_, by simpa using nonempty⟩, ?_⟩
    · rintro _ ⟨⟩
      exact fun d mem => absurd mem List.not_mem_nil
    · simp [text, exponentText, pointText]

/-- The longest numeral ends before the rest of the text, and only the longest does. -/
lemma endsBefore_iff : n.EndsBefore after ↔ Lexer.Longest n.text after ∧ n.TakesMark after := by
  constructor
  · refine fun ends => ⟨fun other isLexeme isPrefix => ?_, ends.noMark⟩
    rcases List.prefix_or_prefix_of_prefix isPrefix (List.prefix_append n.text after) with short | ⟨more, rfl⟩
    · exact short.length_le
    · rcases isLexeme with ⟨t, symbol⟩ | ⟨m, written⟩
      · obtain ⟨c, tail, head, -, noNumeral⟩ := symbol.exists_eq_cons
        obtain ⟨d, digits, split, starts⟩ := n.exists_text_eq_cons
        rw [split, List.cons_append] at head
        cases head
        rw [starts] at noNumeral
        cases noNumeral
      · cases more with
        | nil => simp
        | cons c more =>
          obtain ⟨tail, same⟩ := List.prefix_append_right_inj n.text |>.mp isPrefix
          have endsHere : n.EndsBefore (c :: more) := ends.of_head? (by rw [← same]; rfl)
          have whole := endsHere.text_eq m.endsBefore_nil (by rw [List.append_nil, written])
          exact Nat.le_of_eq (by rw [← written, whole])
  · rintro ⟨longest, takesMark⟩
    have stops (c : Char) (isHead : after.head? = some c) :
        ¬ (c.isDigit = true ∨ c = '.' ∧ n.places = none ∧ n.exponent = none) := by
      intro more
      obtain ⟨m, written⟩ := n.exists_text_append more
      obtain ⟨tail, rfl⟩ := List.head?_eq_some_iff.mp isHead
      have short := longest m.text (.inr ⟨m, rfl⟩) ⟨tail, by simp [written]⟩
      rw [written, List.length_append, List.length_singleton] at short
      omega
    exact {
      noDigit := fun c isHead => Bool.eq_false_iff.mpr fun digit => stops c isHead (.inl digit)
      noPoint := fun noPlaces noExponent isHead => stops '.' isHead (.inr ⟨rfl, noPlaces, noExponent⟩)
      noMark := takesMark }

end Numeral

namespace Lexer

variable {c : Char} {text lexeme rest after : Text} {t : Token}

/-! ## What is taken for a numeral -/

/-- What is taken for a point is nothing, or a point and all the places behind it. -/
lemma exists_places (text : Text) :
    ∃ (places : Option Text) (after : Text), text = pointPart text ++ after ∧
      (places.map ('.' :: ·)).getD [] = pointPart text ∧ (∀ digits ∈ places, ∀ c ∈ digits, c.isDigit = true) ∧
      (places = none → after.head? ≠ some '.') ∧ (StartsWithNoDigit text → StartsWithNoDigit after) := by
  unfold pointPart
  split
  · rename_i point
    obtain ⟨tail, rfl⟩ := List.head?_eq_some_iff.mp point
    refine ⟨some _, tail.dropWhile Char.isDigit, ?_, rfl, ?_, nofun, fun _ => startsWithNoDigit_dropWhile tail⟩
    · rw [List.tail_cons, List.cons_append, List.takeWhile_append_dropWhile]
    · rintro _ ⟨⟩ c mem
      exact List.mem_takeWhile_imp mem
  · rename_i noPoint
    exact ⟨none, text, rfl, rfl, nofun, fun _ => noPoint, id⟩

/-- The sign part of a text is a sign or empty. -/
lemma signPart_cases (text : Text) : ∃ sign : Option Sign, signPart text = (sign.map Sign.symbol).toList := by
  unfold signPart
  cases text with
  | nil => exact ⟨none, rfl⟩
  | cons c rest =>
    split
    · rename_i signed
      rcases signed with plus | minus
      · cases plus
        exact ⟨some .plus, rfl⟩
      · cases minus
        exact ⟨some .minus, rfl⟩
    · exact ⟨none, rfl⟩

/-- What is taken for an exponent is nothing, where no mark stands, or an exponent with all its digits. -/
lemma exists_exponent (found : exponentPart text = .ok lexeme) :
    ∃ (exponent : Option Exponent) (after : Text), text = lexeme ++ after ∧
      (exponent.map Exponent.text).getD [] = lexeme ∧
      (exponent = none → after = text ∧ text.head? ≠ some 'e' ∧ text.head? ≠ some 'E') ∧
      (StartsWithNoDigit text → StartsWithNoDigit after) := by
  unfold exponentPart at found
  split at found
  · rename_i marked
    obtain ⟨sign, signed⟩ := signPart_cases text.tail
    dsimp only at found
    split at found
    · cases found
    · rename_i written
      rw [List.isEmpty_iff] at written
      cases text with
      | nil => simp at marked
      | cons mark rest =>
        have isMark : mark = 'e' ∨ mark = 'E' := by simpa using marked
        have isDigit : ∀ c ∈ (rest.drop (signPart rest).length).takeWhile Char.isDigit, c.isDigit = true :=
          fun c mem => List.mem_takeWhile_imp mem
        have split := List.prefix_iff_eq_append.mp (signPart_isPrefix rest)
        cases found
        refine ⟨some ⟨mark, sign, _, isMark, isDigit, written⟩,
          (rest.drop (signPart rest).length).dropWhile Char.isDigit, ?_, ?_, nofun,
          fun _ => startsWithNoDigit_dropWhile _⟩
        · simp [split]
        · simp only [List.tail_cons] at signed
          simp [Exponent.text, Exponent.signText, signed]
  · rename_i unmarked
    cases found
    exact ⟨none, text, rfl, rfl, fun _ => ⟨rfl, not_or.mp unmarked⟩, id⟩

/-- Digits with places and an exponent make a numeral, unless there is neither a digit nor a place. -/
lemma exists_numeral_of_parts {whole : Text} {places : Option Text} (exponent : Option Exponent)
    (isDigit : ∀ c ∈ whole, c.isDigit = true) (isPlace : ∀ digits ∈ places, ∀ c ∈ digits, c.isDigit = true)
    (written : ¬ (whole.isEmpty && decide (((places.map ('.' :: ·)).getD []).length ≤ 1)) = true) :
    ∃ n : Numeral, n.whole = whole ∧ n.places = places ∧ n.exponent = exponent ∧
      n.text = whole ++ (places.map ('.' :: ·)).getD [] ++ (exponent.map Exponent.text).getD [] := by
  have nonempty : whole ++ places.getD [] ≠ [] := by
    intro empty
    obtain ⟨rfl, noPlaces⟩ := List.append_eq_nil_iff.mp empty
    cases places with
    | none => simp at written
    | some digits =>
      cases noPlaces
      simp at written
  refine ⟨⟨whole, places, exponent, isDigit, isPlace, nonempty⟩, rfl, rfl, rfl, ?_⟩
  simp only [Numeral.text, Numeral.pointText, Numeral.exponentText]
  cases places <;> simp

/-- What is taken for a numeral is one, and nothing behind it lengthens it. -/
lemma exists_numeral (found : numeral text = .ok lexeme) :
    ∃ (n : Numeral) (after : Text), n.text = lexeme ∧ text = n.text ++ after ∧ n.NoLeadingZero ∧
      n.EndsBefore after := by
  unfold numeral at found
  have split := List.takeWhile_append_dropWhile (p := Char.isDigit) (l := text)
  have noDigit := startsWithNoDigit_dropWhile text
  have isDigit : ∀ c ∈ text.takeWhile Char.isDigit, c.isDigit = true := fun c mem => List.mem_takeWhile_imp mem
  obtain ⟨places, afterPoint, tail, point, isPlace, noPoint, endsPoint⟩ := exists_places (text.dropWhile Char.isDigit)
  have behind := congrArg (List.drop (pointPart (text.dropWhile Char.isDigit)).length) tail
  rw [List.drop_left, ← point] at behind
  rw [← point] at tail
  simp only [← point, behind, bind, Except.bind] at found
  split at found
  · cases found
  · rename_i written
    split at found
    · cases found
    · rename_i lexemeTail exponentFound
      obtain ⟨exponent, after, rest, rfl, noMark, endsExponent⟩ := exists_exponent exponentFound
      split at found
      · cases found
      · rename_i led
        cases found
        obtain ⟨n, whole, rfl, rfl, same⟩ := exists_numeral_of_parts exponent isDigit isPlace written
        refine ⟨n, after, same, ?_, ?_, ?_⟩
        · rw [same, List.append_assoc, List.append_assoc, ← rest, ← tail, split]
        · intro noPlaces noExponent
          simpa [noPlaces, noExponent, ← whole] using led
        · exact {
            noDigit := endsExponent (endsPoint noDigit)
            noPoint := fun noPlaces noExponent => (noMark noExponent).1 ▸ noPoint noPlaces
            noMark := fun noExponent => (noMark noExponent).1 ▸ (noMark noExponent).2 }

/-- An exponent fails only when it is incomplete. -/
lemma error_of_exponentPart {e : LexError} (failed : exponentPart text = .error e) : e = .incompleteExponent := by
  unfold exponentPart at failed
  split at failed
  · dsimp only at failed
    split at failed
    · cases failed
      rfl
    · cases failed
  · cases failed

/-- A numeral fails for one of three reasons. -/
lemma error_of_numeral {e : LexError} (failed : numeral text = .error e) :
    e = .lonePoint ∨ e = .incompleteExponent ∨ ∃ digits, e = .leadingZero digits := by
  unfold numeral at failed
  simp only [bind, Except.bind] at failed
  split at failed
  · cases failed
    exact .inl rfl
  · split at failed
    · rename_i exponentFailed
      cases failed
      exact .inr (.inl (error_of_exponentPart exponentFailed))
    · split at failed
      · cases failed
        exact .inr (.inr ⟨_, rfl⟩)
      · cases failed

/-- A numeral that is taken is read as a number, so a number fails as its numeral does. -/
lemma error_of_number {e : LexError} (failed : number c rest = .error e) :
    e = .lonePoint ∨ e = .incompleteExponent ∨ ∃ digits, e = .leadingZero digits := by
  unfold number at failed
  cases found : numeral (c :: rest) with
  | error other =>
    rw [found] at failed
    cases failed
    exact error_of_numeral found
  | ok taken =>
    obtain ⟨n, after, rfl, -⟩ := exists_numeral found
    simp only [found, bind, Except.bind, n.binary64_text] at failed
    cases failed

/-! ## The longest symbol -/

/-- A symbol that has a double is the longest lexeme only where it is not repeated. -/
lemma head?_ne_of_longest (longest : Longest [c] after) (doubled : Symbol [c, c] t) : after.head? ≠ some c := by
  intro isHead
  obtain ⟨tail, rfl⟩ := List.head?_eq_some_iff.mp isHead
  have short := longest [c, c] (.inl ⟨t, doubled⟩) ⟨tail, rfl⟩
  exact absurd short (by simp)

/-- Operators and brackets are written by their own texts. -/
lemma Symbol.of_cases (written : (∃ op, t = .op op) ∨ t = .lparen ∨ t = .rparen) : Symbol t.text t := by
  rcases written with ⟨op, rfl⟩ | rfl | rfl
  · exact .operator
  · exact .lparen
  · exact .rparen

/-- Only a doubled operator could be longer than a symbol, and where it stands it is read. -/
lemma longest_of_symbol? (found : symbol? c rest = some (t, after)) : Longest t.text after := by
  intro other isLexeme isPrefix
  obtain ⟨d, own, written, -⟩ := (Symbol.of_cases (token_of_symbol? found)).exists_eq_cons
  rw [text_append_of_symbol? found] at isPrefix
  obtain ⟨tail, same⟩ := isPrefix
  rcases isLexeme with ⟨u, symbol⟩ | ⟨n, rfl⟩
  · cases symbol with
    | @operator op =>
      cases op with
      | floorDiv =>
        cases same
        cases found
        exact Nat.le_refl 2
      | pow =>
        cases same
        cases found
        exact Nat.le_refl 2
      | _ => simp [written, BinaryOp.symbol]
    | lparen => simp [written]
    | rparen => simp [written]
  · obtain ⟨first, digits, text, starts⟩ := n.exists_text_eq_cons
    rw [text] at same
    cases same
    rw [(symbol?_of_startsNumeral starts _).2] at found
    cases found

/-- A symbol that no other lexeme outlasts is read. -/
lemma symbol?_of_longest (symbol : Symbol lexeme t) (longest : Longest lexeme after)
    (split : c :: rest = lexeme ++ after) : symbol? c rest = some (t, after) := by
  cases symbol with
  | @operator op =>
    cases op with
    | mul =>
      have doubled : Symbol ['*', '*'] (.op .pow) := @Symbol.operator .pow
      have alone := head?_ne_of_longest longest doubled
      cases split
      simp [symbol?, doubled?, alone, single?]
    | div =>
      have doubled : Symbol ['/', '/'] (.op .floorDiv) := @Symbol.operator .floorDiv
      have alone := head?_ne_of_longest longest doubled
      cases split
      simp [symbol?, doubled?, alone, single?]
    | _ =>
      cases split
      rfl
  | lparen =>
    cases split
    rfl
  | rparen =>
    cases split
    rfl

/-- A symbol is read when it is the longest lexeme there. -/
lemma symbol?_eq_some_iff : symbol? c rest = some (t, after) ↔
    ∃ lexeme, Symbol lexeme t ∧ Longest lexeme after ∧ c :: rest = lexeme ++ after := by
  constructor
  · intro found
    exact ⟨t.text, .of_cases (token_of_symbol? found), longest_of_symbol? found, (text_append_of_symbol? found).symm⟩
  · rintro ⟨lexeme, symbol, longest, split⟩
    exact symbol?_of_longest symbol longest split

/-! ## One token -/

/-- A lexeme that is taken starts with a character that is not blank. -/
lemma Takes.exists_eq_cons (takes : Takes lexeme t after) : ∃ c tail, lexeme = c :: tail ∧ isBlank c = false := by
  cases takes with
  | symbol symbol _ =>
    obtain ⟨c, tail, same, notBlank, -⟩ := symbol.exists_eq_cons
    exact ⟨c, tail, same, notBlank⟩
  | @numeral n =>
    obtain ⟨c, tail, same, starts⟩ := n.exists_text_eq_cons
    exact ⟨c, tail, same, (symbol?_of_startsNumeral starts []).1⟩

/-- A number is read from a numeral that is taken. -/
lemma exists_takes_of_number (found : number c rest = .ok (t, after)) :
    ∃ lexeme, Takes lexeme t after ∧ c :: rest = lexeme ++ after := by
  unfold number at found
  cases scanned : numeral (c :: rest) with
  | error e =>
    rw [scanned] at found
    cases found
  | ok lexeme =>
    obtain ⟨n, behind, rfl, split, noLeadingZero, ends⟩ := exists_numeral scanned
    obtain ⟨longest, takesMark⟩ := Numeral.endsBefore_iff.mp ends
    have wellLed := Numeral.noLeadingZero_iff.mp noLeadingZero
    obtain ⟨d, tail, text, -⟩ := n.exists_text_eq_cons
    have same : rest = tail ++ behind := by
      rw [text] at split
      exact (List.cons.inj split).2
    have left : rest.drop (n.text.length - 1) = behind := by
      simp [same, text]
    simp only [scanned, bind, Except.bind, n.binary64_text, left] at found
    cases found
    exact ⟨n.text, .numeral longest takesMark wellLed n.binary64_text, split⟩

/-- A token is read when its lexeme is taken. -/
lemma token_eq_ok_iff :
    token c rest = .ok (t, after) ↔ ∃ lexeme, Takes lexeme t after ∧ c :: rest = lexeme ++ after := by
  constructor
  · intro found
    unfold token at found
    split at found
    · rename_i symbol
      cases found
      obtain ⟨lexeme, isSymbol, longest, split⟩ := symbol?_eq_some_iff.mp symbol
      exact ⟨lexeme, .symbol isSymbol longest, split⟩
    · split at found
      · exact exists_takes_of_number found
      · cases found
  · rintro ⟨lexeme, takes, split⟩
    cases takes with
    | symbol symbol longest =>
      have found := symbol?_eq_some_iff.mpr ⟨lexeme, symbol, longest, split⟩
      rw [token, found]
    | @numeral n v _ longest takesMark wellLed value =>
      obtain ⟨d, tail, text, -⟩ := n.exists_text_eq_cons
      have ends := Numeral.endsBefore_iff.mpr ⟨longest, takesMark⟩
      have found := n.token_append ends (Numeral.noLeadingZero_iff.mpr wellLed) text
      rw [n.binary64_text] at value
      cases value
      rw [text] at split
      cases split
      exact found

/-! ## Unexpected characters -/

/-- The first character of a symbol is a symbol itself. -/
lemma Symbol.exists_single? (symbol : Symbol lexeme t) (isHead : lexeme.head? = some c) :
    ∃ u, single? c = some u := by
  cases symbol with
  | @operator op => cases op <;> cases isHead <;> exact ⟨_, rfl⟩
  | lparen =>
    cases isHead
    exact ⟨_, rfl⟩
  | rparen =>
    cases isHead
    exact ⟨_, rfl⟩

/-- Every symbol starts with a symbol of one character. -/
lemma symbol?_eq_none_iff : symbol? c rest = none ↔ single? c = none := by
  constructor
  · intro noSymbol
    unfold symbol? at noSymbol
    split at noSymbol
    · split at noSymbol
      · cases noSymbol
      · exact Option.map_eq_none_iff.mp noSymbol
    · exact Option.map_eq_none_iff.mp noSymbol
  · intro noSingle
    cases found : symbol? c rest with
    | none => rfl
    | some pair =>
      have isHead : pair.1.text.head? = some c := by
        obtain ⟨d, tail, same, -⟩ := (Symbol.of_cases (token_of_symbol? found)).exists_eq_cons
        have split := text_append_of_symbol? found
        rw [same] at split ⊢
        cases split
        rfl
      obtain ⟨u, single⟩ := (Symbol.of_cases (token_of_symbol? found)).exists_single? isHead
      rw [noSingle] at single
      cases single

/-- Some numeral starts with every character that starts a numeral. -/
lemma exists_numeral_of_startsNumeral (starts : startsNumeral c = true) : ∃ n : Numeral, n.text.head? = some c := by
  rw [startsNumeral, Bool.or_eq_true, decide_eq_true_eq] at starts
  rcases starts with digit | rfl
  · exact ⟨⟨[c], .none, .none, by simpa using digit, by simp, by simp⟩, rfl⟩
  · have zero : ∀ digits ∈ some ['0'], ∀ d ∈ digits, d.isDigit = true := by
      rintro _ ⟨⟩
      exact List.forall_mem_singleton.mpr rfl
    exact ⟨⟨[], .some ['0'], .none, by simp, zero, by simp⟩, rfl⟩

/-- A lexeme starts with a symbol of one character, or as a numeral does. -/
lemma startsLexeme_iff : (∃ lexeme, IsLexeme lexeme ∧ lexeme.head? = some c) ↔
    (∃ t, single? c = some t) ∨ startsNumeral c = true := by
  constructor
  · rintro ⟨lexeme, ⟨t, symbol⟩ | ⟨n, rfl⟩, isHead⟩
    · exact .inl (symbol.exists_single? isHead)
    · obtain ⟨first, tail, text, starts⟩ := n.exists_text_eq_cons
      rw [text] at isHead
      cases isHead
      exact .inr starts
  · rintro (⟨t, single⟩ | starts)
    · exact ⟨t.text, .inl ⟨t, .of_cases (token_of_single? single)⟩, by rw [text_of_single? single]; rfl⟩
    · obtain ⟨n, isHead⟩ := exists_numeral_of_startsNumeral starts
      exact ⟨n.text, .inr ⟨n, rfl⟩, isHead⟩

/-- A character is unexpected when no lexeme starts with it. -/
lemma token_eq_unexpected_iff {d : Char} : token c rest = .error (.unexpected d) ↔
    c = d ∧ ∀ lexeme, IsLexeme lexeme → lexeme.head? ≠ some c := by
  constructor
  · intro failed
    unfold token at failed
    split at failed
    · cases failed
    · rename_i noSymbol
      split at failed
      · rcases error_of_number failed with same | same | ⟨digits, same⟩
        · cases same
        · cases same
        · cases same
      · rename_i noNumeral
        cases failed
        refine ⟨rfl, fun lexeme isLexeme isHead => ?_⟩
        rcases startsLexeme_iff.mp ⟨lexeme, isLexeme, isHead⟩ with ⟨t, single⟩ | starts
        · rw [symbol?_eq_none_iff.mp noSymbol] at single
          cases single
        · exact noNumeral starts
  · rintro ⟨rfl, startsNone⟩
    have noLexeme : ¬ ((∃ t, single? c = some t) ∨ startsNumeral c = true) := by
      rw [← startsLexeme_iff]
      rintro ⟨lexeme, isLexeme, isHead⟩
      exact startsNone lexeme isLexeme isHead
    obtain ⟨noSingle, noNumeral⟩ := not_or.mp noLexeme
    have noSymbol : symbol? c rest = none :=
      symbol?_eq_none_iff.mpr (Option.eq_none_iff_forall_ne_some.mpr fun t single => noSingle ⟨t, single⟩)
    rw [token, noSymbol]
    exact if_neg noNumeral

/-! ## All tokens -/

/-- What has been read stands before the tokens of the rest. -/
lemma Reads.tokenize {ts : List Token} (reads : Reads text ts rest) :
    tokenize text = (tokenize rest).map (ts ++ ·) := by
  induction reads with
  | @done text => cases Calculator.tokenize text <;> rfl
  | blank isBlank _ ih => rw [tokenize_of_isBlank isBlank, ih]
  | @lexeme lexeme t after ts rest takes _ ih =>
    obtain ⟨c, tail, rfl, notBlank⟩ := takes.exists_eq_cons
    have found : token c (tail ++ after) = .ok (t, after) := token_eq_ok_iff.mpr ⟨c :: tail, takes, rfl⟩
    rw [List.cons_append, tokenize_of_token notBlank found, ih]
    cases Calculator.tokenize rest <;> rfl

/-- A text is read to its end, or to a character with which no token starts. -/
lemma exists_reads (text : Text) : ∃ ts rest, Reads text ts rest ∧
    (rest = [] ∨ ∃ c after e, rest = c :: after ∧ isBlank c = false ∧ token c after = .error e) := by
  induction text using tokenize.induct with
  | case1 => exact ⟨[], [], .done, .inl rfl⟩
  | case2 c text blank ih =>
    obtain ⟨ts, rest, reads, ended⟩ := ih
    exact ⟨ts, rest, .blank blank reads, ended⟩
  | case3 c text notBlank e failed =>
    exact ⟨[], c :: text, .done, .inr ⟨c, text, e, rfl, Bool.eq_false_iff.mpr notBlank, failed⟩⟩
  | case4 c text notBlank t after found ih =>
    obtain ⟨ts, rest, reads, ended⟩ := ih
    obtain ⟨lexeme, takes, split⟩ := token_eq_ok_iff.mp found
    rw [split]
    exact ⟨t :: ts, rest, .lexeme takes reads, ended⟩

end Lexer

/-- A text has tokens exactly when it is a sequence of blanks and longest lexemes, and these are the tokens; every
numeral among the lexemes has a value. A character is unexpected exactly when reading comes to it and it is no blank and
starts no lexeme. -/
theorem tokenize_ok_iff_reads (text : Text) :
    (∀ ts, tokenize text = .ok ts ↔ Lexer.Reads text ts []) ∧
    (∀ n : Numeral, ∃ v, Binary64.ofNumeral? n.text = some v) ∧
    ∀ c, tokenize text = .error (.unexpected c) ↔
      ∃ ts rest, Lexer.Reads text ts (c :: rest) ∧ isBlank c = false ∧
        ∀ lexeme, Lexer.IsLexeme lexeme → lexeme.head? ≠ some c := by
  obtain ⟨us, rest, reads, ended⟩ := Lexer.exists_reads text
  have found := reads.tokenize
  refine ⟨fun ts => ⟨fun tokens => ?_, fun whole => ?_⟩, fun n => ⟨_, n.binary64_text⟩, fun c => ⟨fun failed => ?_, ?_⟩⟩
  · rcases ended with rfl | ⟨c, after, e, rfl, notBlank, failed⟩
    · rw [tokens, tokenize_nil] at found
      cases found
      simpa using reads
    · rw [tokens, tokenize_of_token_error notBlank failed] at found
      cases found
  · rw [whole.tokenize, tokenize_nil]
    exact congrArg Except.ok (List.append_nil ts)
  · rcases ended with rfl | ⟨d, after, e, rfl, notBlank, failedHere⟩
    · rw [failed, tokenize_nil] at found
      cases found
    · rw [failed, tokenize_of_token_error notBlank failedHere] at found
      cases found
      obtain ⟨rfl, startsNone⟩ := Lexer.token_eq_unexpected_iff.mp failedHere
      exact ⟨us, after, reads, notBlank, startsNone⟩
  · rintro ⟨ts, rest, reads, notBlank, startsNone⟩
    have failed : Lexer.token c rest = .error (.unexpected c) :=
      Lexer.token_eq_unexpected_iff.mpr ⟨rfl, startsNone⟩
    rw [reads.tokenize, tokenize_of_token_error notBlank failed]
    rfl

end Calculator
