import Calculator.Proofs.Rereading

/-!
# The text of an expression determines it

A space or a closing bracket follows every operand and every operator but the last, and neither is part of a number or
an operator. So two texts that go on with such a character part where their first word ends
(`Text.IsWord.append_inj`), and the first character tells a number, a sign and a bracket apart: the text of an
expression is found at the front of any text that goes on so (`Expr.text_append_inj`), by induction on one expression
for every other. The calculator itself may read the text as another expression, but no other is written with it. Main
statement: `text_determines`.
-/

namespace Calculator

/-! ## Words -/

namespace Text

/-- A text without spaces and closing brackets. -/
def IsWord (word : Text) : Prop :=
  ∀ c ∈ word, c ≠ ' ' ∧ c ≠ ')'

/-- A text that may follow a word: it is empty or starts with a space or a closing bracket. -/
def EndsWord (rest : Text) : Prop :=
  ∀ c ∈ rest.head?, c = ' ' ∨ c = ')'

/-- A word ends at the end of a text. -/
lemma endsWord_nil : EndsWord [] :=
  nofun

/-- A word ends before a space. -/
lemma endsWord_space (rest : Text) : EndsWord (' ' :: rest) := by
  simp [EndsWord]

/-- A word ends before a closing bracket. -/
lemma endsWord_rparen (rest : Text) : EndsWord (')' :: rest) := by
  simp [EndsWord]

/-- A word in front of which a word ends is empty. -/
lemma EndsWord.eq_nil {word rest : Text} (ends : EndsWord (word ++ rest)) (isWord : IsWord word) : word = [] := by
  cases word with
  | nil => rfl
  | cons c word =>
    have inside := isWord c List.mem_cons_self
    rcases ends c rfl with space | bracket
    · exact absurd space inside.1
    · exact absurd bracket inside.2

/-- Words that are followed by ends of words are told from one another. -/
lemma IsWord.append_inj {word other rest others : Text} (isWord : IsWord word) (isWord' : IsWord other)
    (ends : EndsWord rest) (ends' : EndsWord others) (same : word ++ rest = other ++ others) :
    word = other ∧ rest = others := by
  rcases List.append_eq_append_iff.mp same with ⟨more, rfl, rfl⟩ | ⟨more, rfl, rfl⟩
  · have nothing := ends.eq_nil fun c mem => isWord' c (List.mem_append_right word mem)
    simp [nothing]
  · have nothing := ends'.eq_nil fun c mem => isWord c (List.mem_append_right other mem)
    simp [nothing]

end Text

/-! ## Numbers and operators -/

/-- A number, perhaps infinite, that carries no minus. -/
def Binary64.IsUnsigned (v : Binary64) : Prop :=
  v ≠ .nan ∧ v.sign = .plus

namespace Binary64.IsUnsigned

variable {v w : Binary64}

/-- An unsigned number is written as a numeral that reads back, or it is infinite. -/
lemma text_cases (unsigned : v.IsUnsigned) :
    (v = .infinite .plus ∧ v.text = ['i', 'n', 'f']) ∨ ∃ n : Numeral, v.text = n.text ∧ v = n.decimal.round .plus := by
  obtain ⟨isNumber, positive⟩ := unsigned
  cases v with
  | nan => exact absurd rfl isNumber
  | infinite s =>
    cases positive
    exact .inl ⟨rfl, rfl⟩
  | finite s m =>
    cases positive
    obtain ⟨n, writes⟩ := Decimal.exists_numeral_shortest m
    exact .inr ⟨n, writes.text_eq.symm, by rw [writes.round_eq, Decimal.round_shortest]⟩

/-- The text of an unsigned number is a word. -/
lemma isWord_text (unsigned : v.IsUnsigned) : v.text.IsWord := by
  intro c mem
  rcases unsigned.text_cases with ⟨-, written⟩ | ⟨n, written, -⟩
  · rw [written] at mem
    simp only [List.mem_cons, List.not_mem_nil, or_false] at mem
    rcases mem with rfl | rfl | rfl <;> decide
  · rw [written] at mem
    rcases n.char_of_mem_text mem with digit | mark
    · refine ⟨?_, ?_⟩
      · rintro rfl
        cases digit
      · rintro rfl
        cases digit
    · simp only [numeralMarks, List.mem_cons, List.not_mem_nil, or_false] at mark
      rcases mark with rfl | rfl | rfl | rfl | rfl <;> decide

/-- Nothing that starts with a sign or an opening bracket starts with a number. -/
lemma text_append_ne (unsigned : v.IsUnsigned) {c : Char} (starts : c = '(' ∨ c = '+' ∨ c = '-') (rest others : Text) :
    v.text ++ rest ≠ c :: others := by
  rcases unsigned.text_cases with ⟨-, written⟩ | ⟨n, written, -⟩
  · rw [written]
    rcases starts with rfl | rfl | rfl <;> simp
  · obtain ⟨d, tail, split, digit⟩ := n.exists_text_eq_cons
    rw [written, split]
    rintro same
    cases same
    rcases starts with rfl | rfl | rfl <;> cases digit

/-- The text of an unsigned number determines the number. -/
lemma text_inj (unsigned : v.IsUnsigned) (unsigned' : w.IsUnsigned) (same : v.text = w.text) : v = w := by
  have apart (n : Numeral) : n.text ≠ ['i', 'n', 'f'] := by
    intro same
    have mem : 'i' ∈ n.text := by rw [same]; exact List.mem_cons_self
    rcases n.char_of_mem_text mem with digit | mark
    · cases digit
    · exact absurd mark (by decide)
  rcases unsigned.text_cases with ⟨rfl, written⟩ | ⟨n, written, value⟩
  · rcases unsigned'.text_cases with ⟨rfl, -⟩ | ⟨k, written', -⟩
    · rfl
    · exact absurd (by rw [← written', ← same, written]) (apart k)
  · rcases unsigned'.text_cases with ⟨-, written'⟩ | ⟨k, written', value'⟩
    · exact absurd (by rw [← written, same, written']) (apart n)
    · have read := n.binary64_text
      rw [← written, same, written', k.binary64_text, Option.some_inj] at read
      rw [value, value', read]

end Binary64.IsUnsigned

/-- The symbol of an operator is a word. -/
lemma BinaryOp.isWord_symbol (op : BinaryOp) : op.symbol.IsWord := by
  cases op <;> simp [symbol, Text.IsWord]

/-- The symbol of an operator determines the operator. -/
lemma BinaryOp.symbol_inj {op other : BinaryOp} (same : op.symbol = other.symbol) : op = other := by
  revert same
  cases op <;> cases other <;> decide

/-- The symbol of a sign determines the sign. -/
lemma Sign.symbol_inj {s t : Sign} (same : s.symbol = t.symbol) : s = t := by
  revert same
  cases s <;> cases t <;> decide

/-! ## Expressions -/

namespace Expr

/-- No number of the expression carries a minus, and all of them are numbers. -/
def HasUnsignedNumbers (e : Expr) : Prop :=
  ∀ v ∈ e.numbers, v.IsUnsigned

/-- The text of an operation, with what follows it, is taken apart at its symbol. -/
lemma text_binary_append (op : BinaryOp) (a b : Expr) (rest : Text) :
    (binary op a b).text ++ rest = '(' :: (a.text ++ ' ' :: (op.symbol ++ ' ' :: (b.text ++ ')' :: rest))) := by
  simp [text]

/-- The text of an expression at the front of a text determines the expression and what follows it. -/
lemma text_append_inj {e f : Expr} (unsigned : e.HasUnsignedNumbers) (unsigned' : f.HasUnsignedNumbers)
    {rest others : Text} (ends : rest.EndsWord) (ends' : others.EndsWord) (same : e.text ++ rest = f.text ++ others) :
    e = f ∧ rest = others := by
  -- what follows an operand inside another expression ends words too, so the induction is for all that do
  induction e generalizing f rest others with
  | number v =>
    have number := unsigned v List.mem_cons_self
    cases f with
    | number w =>
      have number' := unsigned' w List.mem_cons_self
      obtain ⟨written, follows⟩ := number.isWord_text.append_inj number'.isWord_text ends ends' same
      exact ⟨congrArg Expr.number (number.text_inj number' written), follows⟩
    | signed t y => exact absurd same (number.text_append_ne (by cases t <;> decide) _ _)
    | binary op c d =>
      rw [text_binary_append] at same
      exact absurd same (number.text_append_ne (.inl rfl) _ _)
  | signed s x ih =>
    cases f with
    | number w =>
      have number' := unsigned' w List.mem_cons_self
      exact absurd same.symm (number'.text_append_ne (by cases s <;> decide) _ _)
    | signed t y =>
      obtain ⟨sign, operands⟩ := List.cons.inj same
      obtain ⟨operand, follows⟩ := ih (f := y) unsigned unsigned' ends ends' operands
      exact ⟨by rw [Sign.symbol_inj sign, operand], follows⟩
    | binary op c d =>
      rw [text_binary_append] at same
      have bracket := (List.cons.inj same).1
      cases s <;> cases bracket
  | binary op a b left right =>
    rw [text_binary_append] at same
    cases f with
    | number w =>
      have number' := unsigned' w List.mem_cons_self
      exact absurd same.symm (number'.text_append_ne (.inl rfl) _ _)
    | signed t y =>
      have bracket := (List.cons.inj same).1
      cases t <;> cases bracket
    | binary other c d =>
      rw [text_binary_append] at same
      have unsignedLeft : c.HasUnsignedNumbers := fun v mem => unsigned' v (List.mem_append_left _ mem)
      have unsignedRight : d.HasUnsignedNumbers := fun v mem => unsigned' v (List.mem_append_right _ mem)
      obtain ⟨first, fromOperator⟩ := left (fun v mem => unsigned v (List.mem_append_left _ mem)) unsignedLeft
        (Text.endsWord_space _) (Text.endsWord_space _) (List.cons.inj same).2
      obtain ⟨symbol, fromSecond⟩ := op.isWord_symbol.append_inj other.isWord_symbol
        (Text.endsWord_space _) (Text.endsWord_space _) (List.cons.inj fromOperator).2
      obtain ⟨second, fromBracket⟩ := right (fun v mem => unsigned v (List.mem_append_right _ mem)) unsignedRight
        (Text.endsWord_rparen _) (Text.endsWord_rparen _) (List.cons.inj fromSecond).2
      exact ⟨by rw [first, BinaryOp.symbol_inj symbol, second], (List.cons.inj fromBracket).2⟩

end Expr

/-! ## The trees of calculations -/

/-- A decimal is rounded to a number. -/
lemma Decimal.round_ne_nan (s : Sign) (d : Decimal) : d.round s ≠ .nan := by
  have number (num den : Nat) : Binary64.ofUnits s num den ≠ .nan := by
    unfold Binary64.ofUnits
    split
    · rintro ⟨⟩
    · rintro ⟨⟩
  unfold round
  split
  · exact number 0 1
  · split
    · rintro ⟨⟩
    · split
      · exact number _ _
      · exact number _ _

/-- The numbers of a tree that is calculated are rounded decimals, and a minus before them is a sign. -/
lemma WellFormed.hasUnsignedNumbers {settings : Settings} {text : Text} {ts : List Token} {tree : Expr}
    (w : WellFormed settings text ts tree) : tree.HasUnsignedNumbers := by
  intro v mem
  obtain ⟨d, rfl⟩ := exists_decimal_of_tokenize w.tokens (w.derives.mem_of_mem_numbers mem)
  exact ⟨d.round_ne_nan .plus, d.sign_round .plus⟩

/-- Two expressions, whose numbers carry no minus but may be infinite, are written alike only when they are the same. So
the tree that a trace shows is the only one that it can stand for, and settles the result. -/
theorem text_determines :
    (∀ e f : Expr, e.HasUnsignedNumbers → f.HasUnsignedNumbers → (e.text = f.text ↔ e = f)) ∧
    ∀ settings settings' text text' r r',
      (Reading.ofCanonical settings text).outcome = .ok r → (Reading.ofCanonical settings' text').outcome = .ok r' →
      r.trace.tree = r'.trace.tree → r.tree = r'.tree ∧ r.value = r'.value := by
  have determines (e f : Expr) (unsigned : e.HasUnsignedNumbers) (unsigned' : f.HasUnsignedNumbers) :
      e.text = f.text ↔ e = f := by
    refine ⟨fun same => ?_, congrArg Expr.text⟩
    have whole : e.text ++ [] = f.text ++ [] := by rw [same]
    exact (Expr.text_append_inj unsigned unsigned' Text.endsWord_nil Text.endsWord_nil whole).1
  refine ⟨determines, ?_⟩
  intro settings settings' text text' r r' outcome outcome' same
  obtain ⟨ts, tree, v, w, evaluates, -, rfl⟩ := Reading.outcome_ofCanonical_eq_ok_iff.mp outcome
  obtain ⟨ts', tree', v', w', evaluates', -, rfl⟩ := Reading.outcome_ofCanonical_eq_ok_iff.mp outcome'
  have trees : tree = tree' := (determines tree tree' w.hasUnsignedNumbers w'.hasUnsignedNumbers).mp same
  subst trees
  have values := evaluates.eval_eq.symm.trans evaluates'.eval_eq
  cases values
  exact ⟨rfl, rfl⟩

/-- A power of signed infinities is the only expression of its text, which is read as another one; and two texts of the
square of minus two, whose traces show the same tree, have the same tree and result. -/
theorem text_determines_of_signed_base :
    let infinity := Expr.number (.infinite .plus)
    let power := Expr.binary .pow (.signed .minus infinity) (.signed .minus infinity)
    power.text = "(-inf ** -inf)".toList ∧ power.RaisesSign ∧
      (∀ f : Expr, f.HasUnsignedNumbers → (power.text = f.text ↔ power = f)) ∧
      ∃ r r', (Reading.ofCanonical {} "(-2)**2".toList).outcome = .ok r ∧
        (Reading.ofCanonical {} "((-2.0)) ** 2".toList).outcome = .ok r' ∧
        r.trace.tree = "(-2 ** 2)".toList ∧ r.trace.tree = r'.trace.tree ∧ r.tree = r'.tree ∧ r.value = r'.value := by
  intro infinity power
  obtain ⟨determines, settles⟩ := text_determines
  have unsigned : power.HasUnsignedNumbers := by
    intro v mem
    have same : v = .infinite .plus := by simpa [power, infinity, Expr.numbers] using mem
    rw [same]
    exact ⟨by rintro ⟨⟩, rfl⟩
  have first : (Reading.ofCanonical {} "(-2)**2".toList).outcome.toOption.map (·.trace.tree) =
      some "(-2 ** 2)".toList := by
    decide +kernel
  have second : (Reading.ofCanonical {} "((-2.0)) ** 2".toList).outcome.toOption.map (·.trace.tree) =
      some "(-2 ** 2)".toList := by
    decide +kernel
  obtain ⟨r, outcome, shown⟩ := exists_ok_of_map_toOption first
  obtain ⟨r', outcome', shown'⟩ := exists_ok_of_map_toOption second
  have alike : r.trace.tree = r'.trace.tree := shown.trans shown'.symm
  exact ⟨by decide +kernel, .here, fun f => determines power f unsigned,
    r, r', outcome, outcome', shown, alike, settles _ _ _ _ r r' outcome outcome' alike⟩

end Calculator
