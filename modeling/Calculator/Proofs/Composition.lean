import Calculator.Proofs.Outcome
import Calculator.Proofs.Token.Seams

/-!
# Composed texts

Two texts in brackets with an operator between them compose a text. Nothing in the brackets takes part in
anything outside them: the tokens of the whole are those of the parts with brackets and the operator
(`tokenize_composed`), its tree is the operator on the trees of the parts, and it takes one level more than they do
(`WellFormed.composed`). Main statement: the value of the whole depends on the values of the parts alone
(`evaluate_composed`).
-/

namespace Calculator

/-- Two texts in brackets, with an operator between them. -/
def composed (op : BinaryOp) (left right : Text) : Text :=
  '(' :: left ++ ')' :: op.symbol ++ '(' :: right ++ [')']

/-- The tokens of two expressions in brackets, with an operator between them. -/
def composedTokens (op : BinaryOp) (left right : List Token) : List Token :=
  (.lparen :: left ++ [.rparen]) ++ .op op :: (.lparen :: right ++ [.rparen])

/-! ## Nesting -/

section

variable {L M : Level} {ts us : List Token} {e f : Expr}

/-- A bracket open before an expression is open throughout it. -/
lemma Derives.nestingFrom_succ (d : Derives L ts e) (opened : Nat) :
    nestingFrom (opened + 1) ts = nestingFrom opened ts + 1 := by
  induction d generalizing opened with
  | number => rfl
  | group d ih =>
    simp only [List.cons_append, nestingFrom, d.nestingFrom_append, ih]
    omega
  | base _ ih => exact ih opened
  | unsigned _ ih => exact ih opened
  | factor _ ih => exact ih opened
  | term _ ih => exact ih opened
  | @sign s _ _ _ ih => cases s <;> exact ih opened
  | raise d _ left right =>
    simp only [d.nestingFrom_append, nestingFrom, left, right]
    omega
  | multiply _ d _ left right =>
    simp only [d.nestingFrom_append, nestingFrom, left, right]
    omega
  | join _ d _ left right =>
    simp only [d.nestingFrom_append, nestingFrom, left, right]
    omega

/-- A group nests one level deeper than what is in it. -/
lemma Derives.nesting_group (d : Derives L ts e) : nesting (.lparen :: ts ++ [.rparen]) = nesting ts + 1 := by
  simp only [nesting, List.cons_append, nestingFrom, d.nestingFrom_append, d.nestingFrom_succ]
  omega

/-- The operation on two groups is derived from what is in them. -/
lemma Derives.composed (op : BinaryOp) (left : Derives .sum ts e) (right : Derives .sum us f) :
    Derives .sum (composedTokens op ts us) (.binary op e f) := by
  have looseLeft : op.leftLevel.strength ≤ Level.primary.strength := by cases op <;> decide
  have looseRight : op.rightLevel.strength ≤ Level.primary.strength := by cases op <;> decide
  exact (Derives.binary ((Derives.group left).loosen looseLeft) ((Derives.group right).loosen looseRight)).toSum

/-- A composed text nests one level deeper than its parts. -/
lemma nesting_composedTokens (op : BinaryOp) (left : Derives .sum ts e) (right : Derives .sum us f) :
    nesting (composedTokens op ts us) = max (nesting ts) (nesting us) + 1 := by
  have apart : nesting (composedTokens op ts us) =
      max (nesting (.lparen :: ts ++ [.rparen])) (nesting (.lparen :: us ++ [.rparen])) :=
    (Derives.group left).nestingFrom_append 0 _
  rw [apart, left.nesting_group, right.nesting_group]
  omega

end

/-! ## Reading -/

/-- The tokens of a composed text are those of its parts in brackets. -/
lemma tokenize_composed (op : BinaryOp) {left right : Text} {ts us : List Token}
    (tokensLeft : tokenize left = .ok ts) (tokensRight : tokenize right = .ok us) :
    tokenize (composed op left right) = .ok (composedTokens op ts us) := by
  have second := tokenize_group tokensRight tokenize_nil
  have operator : tokenize (op.symbol ++ ('(' :: right ++ [')'])) = .ok (.op op :: (.lparen :: us ++ [.rparen])) := by
    rw [tokenize_operator op (by simp) (by simp), second]
    rfl
  have whole := tokenize_group tokensLeft operator
  simpa [composed, composedTokens] using whole

/-- A composed text starts and ends with a bracket, so there is nothing to trim. -/
lemma trim_composed (op : BinaryOp) (left right : Text) :
    (composed op left right).trim = composed op left right := by
  refine Text.trim_eq_self ?_ ?_
  · rintro c ⟨⟩
    decide
  · intro c isLast
    rw [composed, List.getLast?_concat] at isLast
    cases isLast
    decide

section

variable {op : BinaryOp} {left right : Text} {ts us : List Token} {e f : Expr} {settings : Settings}

/-- A composed text is as deep as the deeper part, and one level more. -/
lemma WellFormed.composed (first : WellFormed settings left ts e) (second : WellFormed settings right us f)
    {wider : Settings} (deep : settings.maxDepth + 1 ≤ wider.maxDepth)
    (short : (Calculator.composed op left right).length ≤ wider.maxLength) :
    WellFormed wider (Calculator.composed op left right) (composedTokens op ts us) (.binary op e f) where
  nonempty := by
    rw [trim_composed]
    exact List.cons_ne_nil _ _
  short := by rwa [trim_composed]
  tokens := by
    have tokensLeft := first.tokens
    have tokensRight := second.tokens
    rw [tokenize_trim] at tokensLeft tokensRight
    rw [trim_composed]
    exact tokenize_composed op tokensLeft tokensRight
  derives := first.derives.composed op second.derives
  nests := by
    rw [nesting_composedTokens op first.derives second.derives]
    have nestsLeft := first.nests
    have nestsRight := second.nests
    omega
  shallow := by
    have shallowLeft := first.shallow
    have shallowRight := second.shallow
    rw [Expr.depth]
    omega

end

/-! ## Values -/

/-- A composed text that is not too long, with parts one level short of the bounds, has the value of the operator at
the values of the parts, or is a division by zero when the operator is faulty at them; and a division by zero in the
left part is one in the whole. -/
theorem evaluate_composed (op : BinaryOp) (left right : Text)
    (withinLeft : ∃ ts e, WellFormed { maxDepth := 999 } left ts e)
    (withinRight : ∃ us f, WellFormed { maxDepth := 999 } right us f)
    (short : (composed op left right).length ≤ 10000) :
    (∀ a b, evaluate left = .ok a → evaluate right = .ok b →
      (op.Faulty a b → evaluate (composed op left right) = .error .divisionByZero) ∧
      (¬ op.Faulty a b → ∃ w, (Expr.binary op (.number a) (.number b)).eval.outcome = .ok w ∧
        evaluate (composed op left right) = finiteOutcome w)) ∧
    (evaluate left = .error .divisionByZero → evaluate (composed op left right) = .error .divisionByZero) := by
  obtain ⟨ts, e, first⟩ := withinLeft
  obtain ⟨us, f, second⟩ := withinRight
  have whole : evaluate (composed op left right) = (Expr.binary op e f).eval.outcome.bind finiteOutcome :=
    (first.composed second (Nat.le_refl 1000) short).outcome
  have firstWide : WellFormed {} left ts e := first.widen (by decide) (by decide)
  have secondWide : WellFormed {} right us f := second.widen (by decide) (by decide)
  constructor
  · intro a b valueLeft valueRight
    have evaluatesLeft := firstWide.evaluates valueLeft
    have evaluatesRight := secondWide.evaluates valueRight
    constructor
    · intro faulty
      rw [whole, (Expr.Faults.here evaluatesLeft evaluatesRight faulty).eval]
      rfl
    · intro sound
      have makes : op.Makes a b (op.apply a b) := BinaryOp.makes_iff.mpr rfl
      refine ⟨op.apply a b, (Expr.Evaluates.binary .number .number sound makes).eval, ?_⟩
      rw [whole, (Expr.Evaluates.binary evaluatesLeft evaluatesRight sound makes).eval]
      rfl
  · intro divided
    rw [whole, (Expr.Faults.left (firstWide.faults divided)).eval]
    rfl

/-- Zero to the power of minus one is a division by zero, minus one to the power of zero is one, and a division by
zero on the left is one in the whole. -/
theorem evaluate_composed_of_zero :
    evaluate "(1-1)**(2-3)".toList = .error .divisionByZero ∧
      evaluate "(2-3)**(1-1)".toList = .ok (Decimal.round .plus ⟨1, 0⟩) ∧
      evaluate "(1//0)+(2-3)".toList = .error .divisionByZero := by
  have zero : evaluate "1-1".toList = .ok (.zero .plus) := by decide +kernel
  have negative : evaluate "2-3".toList = .ok (Decimal.round .minus ⟨1, 0⟩) := by decide +kernel
  have divided : evaluate "1//0".toList = .error .divisionByZero := by decide +kernel
  have zeroWithin : ∃ ts e, WellFormed { maxDepth := 999 } "1-1".toList ts e :=
    exists_wellFormed (by decide +kernel)
  have negativeWithin : ∃ ts e, WellFormed { maxDepth := 999 } "2-3".toList ts e :=
    exists_wellFormed (by decide +kernel)
  have dividedWithin : ∃ ts e, WellFormed { maxDepth := 999 } "1//0".toList ts e :=
    exists_wellFormed (by decide +kernel)
  refine ⟨?_, ?_, ?_⟩
  · have power := evaluate_composed .pow _ _ zeroWithin negativeWithin (by decide)
    refine (power.1 _ _ zero negative).1 (.inr ⟨rfl, .inl rfl, ?_⟩)
    decide +kernel
  · have power := evaluate_composed .pow _ _ negativeWithin zeroWithin (by decide)
    have sound : ¬ BinaryOp.Faulty .pow (Decimal.round .minus ⟨1, 0⟩) (.zero .plus) := by
      rw [← BinaryOp.fault?_isSome_iff]
      decide +kernel
    obtain ⟨w, value, whole⟩ := (power.1 _ _ negative zero).2 sound
    have one : (Expr.binary .pow (.number (Decimal.round .minus ⟨1, 0⟩)) (.number (.zero .plus))).eval.outcome =
        .ok (Decimal.round .plus ⟨1, 0⟩) := by
      decide +kernel
    have finite : finiteOutcome (Decimal.round .plus ⟨1, 0⟩) = .ok (Decimal.round .plus ⟨1, 0⟩) := by
      decide +kernel
    rw [one] at value
    cases value
    rw [finite] at whole
    exact whole
  · have sum := evaluate_composed .add _ _ dividedWithin negativeWithin (by decide)
    exact sum.2 divided

end Calculator
