import Calculator.Calculation
import Calculator.Proofs.Evaluation
import Calculator.Proofs.Yard.Grammar

/-!
# Outcomes of calculations

A text is well formed under the settings when it is neither blank nor too long, its tokens write an expression,
and neither the nesting of the one nor the depth of the other is too great. A well-formed text is evaluated and
its value has to be finite (`WellFormed.ofCanonical`); every other text is an invalid expression, whatever
it would divide by (`outcome_of_not_wellFormed`). Main statement: `outcomes_classified`, for the three ways to
calculate.
-/

namespace Calculator

namespace Logged

variable {α β ε : Type} {reason : ε → Rejection}

/-- A stage that succeeds reports nothing, and its value is gone on with. -/
lemma accept_ok_bind (a : α) (f : α → Logged β) : accept reason (.ok a) >>= f = f a :=
  rfl

/-- A stage that fails rejects the expression, and nothing follows. -/
lemma accept_error_bind (e : ε) (f : α → Logged β) : accept reason (.error e) >>= f = reject (reason e) :=
  rfl

/-- An event comes before what is reported then. -/
lemma emit_bind (event : Event) (f : Unit → Logged β) :
    emit event >>= f = ⟨event :: (f ()).events, (f ()).outcome⟩ :=
  rfl

/-- An event makes no difference to the outcome. -/
lemma outcome_emit_bind (event : Event) (f : Unit → Logged β) :
    (emit event >>= f).outcome = (f ()).outcome :=
  rfl

end Logged

/-- The text is accepted by every stage before evaluation, and its tokens write the tree. -/
structure WellFormed (settings : Settings) (text : Text) (ts : List Token) (tree : Expr) : Prop where
  nonempty : text.trim ≠ []
  short : text.trim.length ≤ settings.maxLength
  tokens : tokenize text.trim = .ok ts
  derives : Derives .sum ts tree
  nests : nesting ts ≤ settings.maxDepth
  shallow : tree.depth ≤ settings.maxDepth

/-- A text is allowed, without its outer blanks, when it is neither empty nor too long. -/
lemma Settings.allow_eq_ok_iff {settings : Settings} {text trimmed : Text} :
    settings.allow text = .ok trimmed ↔
      trimmed = text.trim ∧ text.trim ≠ [] ∧ text.trim.length ≤ settings.maxLength := by
  unfold allow
  split
  · rename_i empty
    simp [List.isEmpty_iff.mp empty]
  · rename_i nonempty
    rw [List.isEmpty_iff] at nonempty
    split
    · rename_i long
      simp [Nat.not_le.mpr long]
    · rename_i short
      simp [nonempty, Nat.not_lt.mp short, eq_comm]

variable {settings : Settings} {text : Text} {ts : List Token} {tree : Expr}

/-- A text is refused for being empty or too long, and not for its value. -/
lemma Settings.of_allow_eq_error {reason : Rejection} (refused : settings.allow text = .error reason) :
    (text.trim = [] ∨ settings.maxLength < text.trim.length) ∧ ∀ v, reason ≠ .notFinite v := by
  unfold allow at refused
  split at refused
  · rename_i empty
    cases refused
    exact ⟨.inl (List.isEmpty_iff.mp empty), by simp⟩
  · split at refused
    · rename_i long
      cases refused
      exact ⟨.inr long, by simp⟩
    · cases refused

/-- A well-formed text is evaluated, and its value has to be finite. -/
lemma WellFormed.ofCanonical (w : WellFormed settings text ts tree) :
    Reading.ofCanonical settings text = (do
      Logged.emit (.reading text.trim)
      let value ← tree.eval
      let finite ← Logged.accept id (requireFinite value)
      Logged.emit (.result finite)
      pure ⟨text.trim, ts, tree.postorder, tree, finite⟩) := by
  have allowed := Settings.allow_eq_ok_iff.mpr ⟨rfl, w.nonempty, w.short⟩
  have ordered := w.derives.toPostorder w.nests
  have built := Expr.ofPostorder_postorder settings.maxDepth tree
  rw [if_pos w.shallow] at built
  rw [Reading.ofCanonical, allowed]
  simp only [Logged.accept_ok_bind, w.tokens, ordered, built]

/-- The ways to reject a text before anything is evaluated: unread for its length, or for what is read. -/
inductive Rejected (settings : Settings) (text : Text) : Logged Reading → Prop where
  | unread {reason} :
    text.trim = [] ∨ settings.maxLength < text.trim.length →
    (∀ v, reason ≠ .notFinite v) →
    Rejected settings text ⟨[.rejected reason], .error .invalidExpression⟩
  | read {reason} :
    text.trim ≠ [] →
    text.trim.length ≤ settings.maxLength →
    (∀ v, reason ≠ .notFinite v) →
    Rejected settings text ⟨[.reading text.trim, .rejected reason], .error .invalidExpression⟩

/-- A text that is not well formed is rejected before anything is evaluated. -/
lemma rejected_of_not_wellFormed (h : ¬ ∃ ts tree, WellFormed settings text ts tree) :
    Rejected settings text (Reading.ofCanonical settings text) := by
  rw [Reading.ofCanonical]
  cases allowed : settings.allow text with
  | error reason =>
    obtain ⟨refuses, early⟩ := Settings.of_allow_eq_error allowed
    rw [Logged.accept_error_bind]
    exact .unread refuses early
  | ok trimmed =>
    obtain ⟨rfl, nonempty, short⟩ := Settings.allow_eq_ok_iff.mp allowed
    rw [Logged.accept_ok_bind, Logged.emit_bind]
    -- a stage fails, or what the stages accept would make the text well formed
    cases tokens : tokenize text.trim with
    | error e =>
      rw [Logged.accept_error_bind]
      exact .read nonempty short (by simp)
    | ok ts =>
      rw [Logged.accept_ok_bind]
      cases ordered : toPostorder settings.maxDepth ts with
      | error e =>
        rw [Logged.accept_error_bind]
        exact .read nonempty short (by simp)
      | ok output =>
        obtain ⟨nests, tree, derives, rfl⟩ := derives_of_toPostorder ordered
        have deep : ¬ tree.depth ≤ settings.maxDepth :=
          fun shallow => h ⟨ts, tree, nonempty, short, tokens, derives, nests, shallow⟩
        rw [Logged.accept_ok_bind, Expr.ofPostorder_postorder, if_neg deep, Logged.accept_error_bind]
        exact .read nonempty short (by simp)

/-- A text that is not well formed is an invalid expression. -/
lemma outcome_of_not_wellFormed (h : ¬ ∃ ts tree, WellFormed settings text ts tree) :
    (Reading.ofCanonical settings text).outcome = .error .invalidExpression := by
  have rejected := rejected_of_not_wellFormed h
  generalize Reading.ofCanonical settings text = c at rejected
  cases rejected with
  | unread _ _ => rfl
  | read _ _ _ => rfl

/-- A text that is not an invalid expression is well formed. -/
lemma exists_wellFormed
    (valid : (Reading.ofCanonical settings text).outcome.map Reading.value ≠ .error .invalidExpression) :
    ∃ ts tree, WellFormed settings text ts tree := by
  by_contra malformed
  rw [outcome_of_not_wellFormed malformed] at valid
  exact valid rfl

/-- A text is read in one way, and the settings have no part in it. -/
lemma WellFormed.unique {other : Settings} {us : List Token} {root : Expr} (w : WellFormed settings text ts tree)
    (w' : WellFormed other text us root) : us = ts ∧ root = tree := by
  have tokens := w'.tokens
  rw [w.tokens] at tokens
  cases tokens
  exact ⟨rfl, w'.derives.unique w.derives⟩

/-- A well-formed text is well formed under all settings that leave room for it. -/
lemma WellFormed.of_room {other : Settings} (w : WellFormed settings text ts tree)
    (deep : max (nesting ts) tree.depth ≤ other.maxDepth) (long : text.trim.length ≤ other.maxLength) :
    WellFormed other text ts tree where
  nonempty := w.nonempty
  short := long
  tokens := w.tokens
  derives := w.derives
  nests := Nat.le_trans (Nat.le_max_left _ _) deep
  shallow := Nat.le_trans (Nat.le_max_right _ _) deep

/-- A text that is well formed under some bounds is well formed under wider ones. -/
lemma WellFormed.widen {wider : Settings} (w : WellFormed settings text ts tree)
    (deep : settings.maxDepth ≤ wider.maxDepth) (long : settings.maxLength ≤ wider.maxLength) :
    WellFormed wider text ts tree :=
  w.of_room (Nat.le_trans (Nat.max_le.mpr ⟨w.nests, w.shallow⟩) deep) (Nat.le_trans w.short long)

/-- The outcome that a value leads to: itself when it is finite, and otherwise an invalid expression. -/
def finiteOutcome (v : Binary64) : Except CalcError Binary64 :=
  if v.isFinite then .ok v else .error .invalidExpression

/-- A number is the outcome when it is the value and finite. -/
lemma bind_finiteOutcome_eq_ok_iff {x : Except CalcError Binary64} {v : Binary64} :
    x.bind finiteOutcome = .ok v ↔ x = .ok v ∧ v.isFinite = true := by
  cases x with
  | error e => simp [Except.bind]
  | ok w =>
    by_cases finite : w.isFinite = true
    · simp only [Except.bind, finiteOutcome, if_pos finite, Except.ok.injEq]
      exact ⟨fun same => ⟨same, same ▸ finite⟩, And.left⟩
    · simp only [Except.bind, finiteOutcome, if_neg finite, Except.ok.injEq, reduceCtorEq, false_iff]
      rintro ⟨rfl, finiteV⟩
      exact finite finiteV

/-- A number that is not finite is no division by zero. -/
lemma bind_finiteOutcome_eq_divisionByZero_iff {x : Except CalcError Binary64} :
    x.bind finiteOutcome = .error .divisionByZero ↔ x = .error .divisionByZero := by
  cases x with
  | error e => rfl
  | ok w =>
    by_cases finite : w.isFinite = true
    · simp [Except.bind, finiteOutcome, finite]
    · simp [Except.bind, finiteOutcome, finite]

/-- The outcome for a well-formed text is that of evaluating its tree, and the value has to be finite. -/
lemma WellFormed.outcome (w : WellFormed settings text ts tree) :
    (Reading.ofCanonical settings text).outcome.map Reading.value = tree.eval.outcome.bind finiteOutcome := by
  rw [w.ofCanonical, Logged.outcome_emit_bind, Logged.outcome_bind]
  cases tree.eval.outcome with
  | error e => rfl
  | ok v =>
    cases v with
    | nan => rfl
    | infinite s => rfl
    | finite s m => rfl

/-- The value that is calculated is the one that the tree stands for. -/
lemma WellFormed.evaluates (w : WellFormed settings text ts tree) {v : Binary64}
    (value : (Reading.ofCanonical settings text).outcome.map Reading.value = .ok v) : tree.Evaluates v := by
  rw [w.outcome, bind_finiteOutcome_eq_ok_iff] at value
  exact Expr.eval_eq_ok_iff.mp value.1

/-- The tree faults when a division by zero is calculated. -/
lemma WellFormed.faults (w : WellFormed settings text ts tree)
    (divided : (Reading.ofCanonical settings text).outcome.map Reading.value = .error .divisionByZero) :
    tree.Faults := by
  rw [w.outcome, bind_finiteOutcome_eq_divisionByZero_iff] at divided
  exact (Expr.eval_eq_error_iff.mp divided).2

/-- The outcome of a calculation, told from the grammar and the meaning of the text alone: a division by zero
when evaluating a well-formed text meets a faulty operation, the value when a well-formed text stands for a
finite number, and an invalid expression in every other case. -/
structure Classified (settings : Settings) (text : Text) (outcome : Except CalcError Binary64) : Prop where
  divisionByZero : outcome = .error .divisionByZero ↔
    ∃ ts tree, WellFormed settings text ts tree ∧ tree.Faults
  value : ∀ v, outcome = .ok v ↔
    ∃ ts tree, WellFormed settings text ts tree ∧ tree.Evaluates v ∧ v.isFinite = true
  invalid : outcome = .error .invalidExpression ↔
    ¬ ∃ ts tree, WellFormed settings text ts tree ∧
      (tree.Faults ∨ ∃ v, tree.Evaluates v ∧ v.isFinite = true)

/-- Divisions by zero and values settle the classification: every other outcome is an invalid expression. -/
lemma Classified.of_division_of_value {outcome : Except CalcError Binary64}
    (division : outcome = .error .divisionByZero ↔
      ∃ ts tree, WellFormed settings text ts tree ∧ tree.Faults)
    (value : ∀ v, outcome = .ok v ↔
      ∃ ts tree, WellFormed settings text ts tree ∧ tree.Evaluates v ∧ v.isFinite = true) :
    Classified settings text outcome where
  divisionByZero := division
  value := value
  invalid := by
    constructor
    · rintro rfl ⟨ts, tree, w, fault | ⟨v, evaluates, finite⟩⟩
      · cases division.mpr ⟨ts, tree, w, fault⟩
      · cases (value v).mpr ⟨ts, tree, w, evaluates, finite⟩
    · intro neither
      cases outcome with
      | ok v =>
        obtain ⟨ts, tree, w, evaluates, finite⟩ := (value v).mp rfl
        exact absurd ⟨ts, tree, w, .inr ⟨v, evaluates, finite⟩⟩ neither
      | error e =>
        cases e with
        | divisionByZero =>
          obtain ⟨ts, tree, w, fault⟩ := division.mp rfl
          exact absurd ⟨ts, tree, w, .inl fault⟩ neither
        | invalidExpression => rfl

/-- The outcome for a well-formed text is told by its tree. -/
lemma WellFormed.classified (w : WellFormed settings text ts tree) :
    Classified settings text ((Reading.ofCanonical settings text).outcome.map Reading.value) := by
  -- the one tree of the text stands for every tree that is asked about
  have only (P : Expr → Prop) : (∃ us other, WellFormed settings text us other ∧ P other) ↔ P tree := by
    constructor
    · rintro ⟨us, other, w', holds⟩
      rwa [(w.unique w').2] at holds
    · exact fun holds => ⟨ts, tree, w, holds⟩
  refine .of_division_of_value ?_ fun v => ?_
  · rw [only Expr.Faults, w.outcome, bind_finiteOutcome_eq_divisionByZero_iff, Expr.eval_eq_error_iff]
    simp
  · rw [only fun t => t.Evaluates v ∧ v.isFinite = true, w.outcome, bind_finiteOutcome_eq_ok_iff,
      Expr.eval_eq_ok_iff]

/-- The outcome for every text is told by the grammar and the meaning of the text. -/
lemma Reading.classified (settings : Settings) (text : Text) :
    Classified settings text ((Reading.ofCanonical settings text).outcome.map Reading.value) := by
  by_cases wellFormed : ∃ ts tree, WellFormed settings text ts tree
  · obtain ⟨ts, tree, w⟩ := wellFormed
    exact w.classified
  · rw [outcome_of_not_wellFormed wellFormed]
    refine .of_division_of_value (iff_of_false (by simp [Except.map]) ?_) fun v =>
      iff_of_false (by simp [Except.map]) ?_
    · rintro ⟨ts, tree, w, -⟩
      exact wellFormed ⟨ts, tree, w⟩
    · rintro ⟨ts, tree, w, -⟩
      exact wellFormed ⟨ts, tree, w⟩

/-- The value of an entry is that of its canonical text. -/
lemma outcome_calculate (settings : Settings) (entry : Text) :
    (calculate settings entry).outcome.map Prod.fst =
      (Reading.ofCanonical settings (canonical entry)).outcome.map Reading.value := by
  rw [calculate, Logged.outcome_bind]
  cases (Reading.ofCanonical settings (canonical entry)).outcome <;> rfl

/-- The stages, evaluation under the default settings, and the calculation of an entry have the outcome that the
grammar and the meaning of the canonical text tell. -/
theorem outcomes_classified :
    (∀ settings text,
      Classified settings text ((Reading.ofCanonical settings text).outcome.map Reading.value)) ∧
    (∀ text, Classified {} text (evaluate text)) ∧
    ∀ settings entry,
      Classified settings (canonical entry) ((calculate settings entry).outcome.map Prod.fst) := by
  refine ⟨Reading.classified, Reading.classified {}, fun settings entry => ?_⟩
  rw [outcome_calculate]
  exact Reading.classified settings (canonical entry)

end Calculator
