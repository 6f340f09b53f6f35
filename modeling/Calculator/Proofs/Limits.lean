import Calculator.Proofs.Outcome

/-!
# Limits only refuse

The settings bound the length of a text, the brackets open at once and the depth of its tree. A text that is well
formed under some settings is so under others exactly when these leave room for it (`WellFormed.exists_iff`), and
then it is calculated alike (`WellFormed.calculate_eq`): nothing but the refusal depends on the bounds. Main
statement: wider bounds keep every answer, and an entry that has one has a least bound on depth (`limits_only_refuse`).
-/

namespace Calculator

section

variable {settings other : Settings} {text entry : Text} {ts : List Token} {tree : Expr}

/-- Other settings read a well-formed text exactly when they leave room for it. -/
lemma WellFormed.exists_iff (w : WellFormed settings text ts tree) :
    (∃ us root, WellFormed other text us root) ↔
      max (nesting ts) tree.depth ≤ other.maxDepth ∧ text.trim.length ≤ other.maxLength := by
  constructor
  · rintro ⟨us, root, w'⟩
    obtain ⟨rfl, rfl⟩ := w.unique w'
    exact ⟨Nat.max_le.mpr ⟨w'.nests, w'.shallow⟩, w'.short⟩
  · rintro ⟨deep, long⟩
    exact ⟨ts, tree, w.of_room deep long⟩

/-- Settings under which the text of an entry is well formed calculate the entry alike, events included. -/
lemma WellFormed.calculate_eq (w : WellFormed settings (canonical entry) ts tree)
    (w' : WellFormed other (canonical entry) ts tree) : calculate other entry = calculate settings entry := by
  rw [calculate, calculate, w.ofCanonical, w'.ofCanonical]

/-- An entry that is not well formed is an invalid expression. -/
lemma calculate_of_not_wellFormed (malformed : ¬ ∃ ts tree, WellFormed settings (canonical entry) ts tree) :
    (calculate settings entry).outcome = .error .invalidExpression := by
  rw [calculate, Logged.outcome_bind, outcome_of_not_wellFormed malformed]
  rfl

/-- An entry whose calculation is not invalid is well formed. -/
lemma exists_wellFormed_of_calculate (valid : (calculate settings entry).outcome ≠ .error .invalidExpression) :
    ∃ ts tree, WellFormed settings (canonical entry) ts tree := by
  by_contra malformed
  exact valid (calculate_of_not_wellFormed malformed)

/-- Wider bounds calculate an entry that is not an invalid expression alike. -/
lemma calculate_widen (valid : (calculate settings entry).outcome ≠ .error .invalidExpression)
    (deep : settings.maxDepth ≤ other.maxDepth) (long : settings.maxLength ≤ other.maxLength) :
    calculate other entry = calculate settings entry := by
  obtain ⟨ts, tree, w⟩ := exists_wellFormed_of_calculate valid
  exact w.calculate_eq (w.widen deep long)

end

/-- Wider bounds keep the value and the trace of an entry, and its division by zero. An entry that has an answer has a
least bound on depth, the greater of its nesting and the depth of its tree: from there on its calculation is the same
under all bounds that it is not too long for, and below it is an invalid expression. -/
theorem limits_only_refuse (entry : Text) :
    (∀ settings wider : Settings, settings.maxDepth ≤ wider.maxDepth → settings.maxLength ≤ wider.maxLength →
      (∀ v trace, (calculate settings entry).outcome = .ok (v, trace) →
        (calculate wider entry).outcome = .ok (v, trace)) ∧
      ((calculate settings entry).outcome = .error .divisionByZero →
        (calculate wider entry).outcome = .error .divisionByZero)) ∧
    ∀ settings : Settings, (calculate settings entry).outcome ≠ .error .invalidExpression →
      ∃ ts tree, tokenize (canonical entry).trim = .ok ts ∧ Derives .sum ts tree ∧
        ∀ other : Settings,
          (max (nesting ts) tree.depth ≤ other.maxDepth → (canonical entry).trim.length ≤ other.maxLength →
            calculate other entry = calculate settings entry) ∧
          (other.maxDepth < max (nesting ts) tree.depth →
            (calculate other entry).outcome = .error .invalidExpression) := by
  refine ⟨fun settings wider deep long => ⟨fun v trace value => ?_, fun divided => ?_⟩, fun settings valid => ?_⟩
  · rw [calculate_widen (by simp [value]) deep long, value]
  · rw [calculate_widen (by simp [divided]) deep long, divided]
  · obtain ⟨ts, tree, w⟩ := exists_wellFormed_of_calculate valid
    refine ⟨ts, tree, w.tokens, w.derives, fun other => ⟨fun deep long => ?_, fun shallow => ?_⟩⟩
    · exact w.calculate_eq (w.of_room deep long)
    · apply calculate_of_not_wellFormed
      rw [w.exists_iff]
      rintro ⟨deep, -⟩
      exact absurd shallow (Nat.not_lt.mpr deep)

/-- A number in two brackets is read from depth two on, though its tree is a single node; a division by zero stays one
under wider bounds. -/
theorem limits_only_refuse_of_brackets :
    let seven := Decimal.round .plus ⟨7, 0⟩
    let trace : Trace := ⟨"((7))".toList, "( ( 7 ) )".toList, ['7'], ['7']⟩
    (calculate ⟨2, 5⟩ "((7))".toList).outcome = .ok (seven, trace) ∧
      (calculate {} "((7))".toList).outcome = .ok (seven, trace) ∧
      calculate ⟨3, 5⟩ "((7))".toList = calculate ⟨2, 5⟩ "((7))".toList ∧
      (calculate ⟨1, 5⟩ "((7))".toList).outcome = .error .invalidExpression ∧
      (calculate {} "1÷0".toList).outcome = .error .divisionByZero := by
  intro seven trace
  obtain ⟨keeps, least⟩ := limits_only_refuse "((7))".toList
  have value : (calculate ⟨2, 5⟩ "((7))".toList).outcome = .ok (seven, trace) := by decide +kernel
  have divided : (calculate ⟨2, 3⟩ "1÷0".toList).outcome = .error .divisionByZero := by decide +kernel
  have tokens : tokenize (canonical "((7))".toList).trim = .ok [.lparen, .lparen, .number seven, .rparen, .rparen] := by
    decide +kernel
  have valid : (calculate ⟨2, 5⟩ "((7))".toList).outcome ≠ .error .invalidExpression := by
    rw [value]
    nofun
  obtain ⟨ts, tree, tokensFound, derives, threshold⟩ := least ⟨2, 5⟩ valid
  rw [tokens] at tokensFound
  cases tokensFound
  have grouped : Derives .sum [.lparen, .lparen, .number seven, .rparen, .rparen] (.number seven) :=
    (Derives.group (Derives.group Derives.number.toSum).toSum).toSum
  cases derives.unique grouped
  have kept := (keeps ⟨2, 5⟩ {} (by decide) (by decide)).1 seven trace value
  have divides := ((limits_only_refuse "1÷0".toList).1 ⟨2, 3⟩ {} (by decide) (by decide)).2 divided
  exact ⟨value, kept, (threshold ⟨3, 5⟩).1 (by decide) (by decide), (threshold ⟨1, 5⟩).2 (by decide), divides⟩

end Calculator
