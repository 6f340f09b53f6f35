import Mathlib.Tactic.Lemma
import Calculator.Evaluation

/-!
# What evaluation means

`Expr.Evaluates` and `Expr.Faults` say, without order or log, which number an expression stands for and when a
faulty operation is met: the operands of an operation have values, and the operation is faulty at them. What an
operator makes of two numbers is said operator by operator (`BinaryOp.Makes`). The evaluator computes just that: it
returns the value of an expression that has one, reporting nothing (`Expr.Evaluates.eval_eq`), and fails with a division
by zero when the expression faults, reporting the faulty operation alone (`Expr.Faults.eval_eq`). Main statements:
`Expr.eval_eq_ok_iff`, `Expr.eval_eq_error_iff`.
-/

namespace Calculator

namespace Logged

variable {α β : Type}

/-- The outcome of a computation that goes on is that of the first part, or else that of the second. -/
@[simp] lemma outcome_bind (x : Logged α) (f : α → Logged β) :
    (x >>= f).outcome = x.outcome.bind fun a => (f a).outcome := by
  cases h : x.outcome with
  | ok a => simp [bind_of_ok f h, Except.bind]
  | error e => simp [bind_of_error f h, Except.bind]

/-- A value that is there at once is gone on with. -/
lemma pure_bind (a : α) (f : α → Logged β) : (pure a : Logged α) >>= f = f a :=
  rfl

/-- Nothing follows a failure. -/
lemma fail_bind (event : Event) (error : CalcError) (f : α → Logged β) :
    (fail event error : Logged α) >>= f = fail event error :=
  rfl

end Logged

namespace Binary64

/-- The zeros are the two numbers that are zero. -/
lemma isZero_iff (v : Binary64) : v.isZero = true ↔ v = zero .plus ∨ v = zero .minus := by
  constructor
  · intro h
    cases v with
    | nan => cases h
    | infinite s => cases h
    | finite s m =>
      have units : m.units = 0 := of_decide_eq_true h
      have same := ofUnits_self s m
      rw [units] at same
      cases s with
      | plus => exact .inl same.symm
      | minus => exact .inr same.symm
  · rintro (rfl | rfl) <;> decide +kernel

end Binary64

namespace BinaryOp

/-- An operation is faulty at two operands when it divides by a zero of either sign, or raises such a zero to a
power below zero. -/
def Faulty (op : BinaryOp) (a b : Binary64) : Prop :=
  ((op = .div ∨ op = .floorDiv ∨ op = .mod) ∧ (b = .zero .plus ∨ b = .zero .minus)) ∨
    (op = .pow ∧ (a = .zero .plus ∨ a = .zero .minus) ∧ b.lt (.zero .plus) = true)

/-- What an operator makes of two numbers: each stands for an operation of its own. -/
inductive Makes : BinaryOp → Binary64 → Binary64 → Binary64 → Prop where
  | add {v w} : Makes .add v w (v.add w)
  | sub {v w} : Makes .sub v w (v.sub w)
  | mul {v w} : Makes .mul v w (v.mul w)
  | div {v w} : Makes .div v w (v.div w)
  | mod {v w} : Makes .mod v w (v.mod w)
  | floorDiv {v w} : Makes .floorDiv v w (v.floorDiv w)
  | pow {v w} : Makes .pow v w (v.pow w)

/-- An operator makes the one number that applying it gives. -/
lemma makes_iff {op : BinaryOp} {v w r : Binary64} : op.Makes v w r ↔ r = op.apply v w := by
  constructor
  · intro makes
    cases makes <;> rfl
  · rintro rfl
    cases op with
    | add => exact .add
    | sub => exact .sub
    | mul => exact .mul
    | div => exact .div
    | mod => exact .mod
    | floorDiv => exact .floorDiv
    | pow => exact .pow

/-- The operators that divide are the quotient, the floored quotient and the remainder. -/
lemma divides_iff (op : BinaryOp) : op.divides = true ↔ op = .div ∨ op = .floorDiv ∨ op = .mod := by
  cases op <;> decide

/-- The operation reports a fault when it is faulty. -/
lemma fault?_isSome_iff (op : BinaryOp) (a b : Binary64) :
    (op.fault? a b).isSome = true ↔ op.Faulty a b := by
  have zero (v : Binary64) : (v = .zero .plus ∨ v = .zero .minus) ↔ v.isZero = true := v.isZero_iff.symm
  unfold Faulty fault? Binary64.isNegative
  rw [zero, zero, ← divides_iff]
  split
  · rename_i zeroDivisor
    rw [Bool.and_eq_true] at zeroDivisor
    exact iff_of_true rfl (.inl zeroDivisor)
  · rename_i noZeroDivisor
    rw [Bool.and_eq_true] at noZeroDivisor
    split
    · rename_i zeroToNegative
      rw [Bool.and_eq_true, Bool.and_eq_true, decide_eq_true_eq, and_assoc] at zeroToNegative
      exact iff_of_true rfl (.inr zeroToNegative)
    · rename_i noZeroToNegative
      rw [Bool.and_eq_true, Bool.and_eq_true, decide_eq_true_eq, and_assoc] at noZeroToNegative
      exact iff_of_false Bool.false_ne_true (not_or.mpr ⟨noZeroDivisor, noZeroToNegative⟩)

/-- An operation that is sound reports nothing. -/
lemma fault?_of_sound {op : BinaryOp} {a b : Binary64} (sound : ¬ op.Faulty a b) : op.fault? a b = none := by
  rw [← Option.not_isSome_iff_eq_none, op.fault?_isSome_iff]
  exact sound

/-- Running a sound operation gives what its operator makes of the operands. -/
lemma run_of_makes {op : BinaryOp} {a b r : Binary64} (sound : ¬ op.Faulty a b) (makes : op.Makes a b r) :
    op.run a b = pure r := by
  rw [run, fault?_of_sound sound, makes_iff.mp makes]

end BinaryOp

/-! ## Faulty operations in the log -/

/-- The events that report a faulty operation: a divisor that is a zero of either sign, or such a zero raised to a
power below zero. -/
inductive Event.ReportsFault : Event → Prop where
  | zeroDivisor {a : Binary64} {op : BinaryOp} :
    op = .div ∨ op = .floorDiv ∨ op = .mod →
    ReportsFault (.zeroDivisor a op)
  | zeroToNegative {base exponent : Binary64} :
    base = .zero .plus ∨ base = .zero .minus →
    exponent.lt (.zero .plus) = true →
    ReportsFault (.zeroToNegative base exponent)

/-- The event reports the operation with the values of its operands; a divisor is told by being a zero. -/
inductive Event.Reports : Event → BinaryOp → Binary64 → Binary64 → Prop where
  | zeroDivisor {op v w} :
    op = .div ∨ op = .floorDiv ∨ op = .mod →
    w = .zero .plus ∨ w = .zero .minus →
    Reports (.zeroDivisor v op) op v w
  | zeroToNegative {v w} :
    v = .zero .plus ∨ v = .zero .minus →
    w.lt (.zero .plus) = true →
    Reports (.zeroToNegative v w) .pow v w

/-- What is reported of an operation tells its operator and its operands. -/
lemma BinaryOp.reports_of_fault? {op : BinaryOp} {a b : Binary64} {event : Event}
    (fault : op.fault? a b = some event) : event.Reports op a b := by
  unfold fault? at fault
  split at fault
  · rename_i divides
    rw [Bool.and_eq_true, divides_iff] at divides
    cases fault
    exact .zeroDivisor divides.1 (b.isZero_iff.mp divides.2)
  · split at fault
    · rename_i negative
      rw [Bool.and_eq_true, Bool.and_eq_true, decide_eq_true_eq] at negative
      obtain ⟨⟨rfl, zero⟩, below⟩ := negative
      cases fault
      exact .zeroToNegative (a.isZero_iff.mp zero) below
    · cases fault

/-- What is reported of an operation reports a faulty one. -/
lemma BinaryOp.reportsFault_of_fault? {op : BinaryOp} {a b : Binary64} {event : Event}
    (fault : op.fault? a b = some event) : event.ReportsFault := by
  cases reports_of_fault? fault with
  | zeroDivisor divides _ => exact .zeroDivisor divides
  | zeroToNegative zero negative => exact .zeroToNegative zero negative

/-- Running a faulty operation reports it and fails with a division by zero. -/
lemma BinaryOp.run_of_faulty {op : BinaryOp} {a b : Binary64} (faulty : op.Faulty a b) :
    ∃ event : Event, event.ReportsFault ∧ op.run a b = .fail event .divisionByZero := by
  obtain ⟨event, fault⟩ := Option.isSome_iff_exists.mp ((op.fault?_isSome_iff a b).mpr faulty)
  refine ⟨event, op.reportsFault_of_fault? fault, ?_⟩
  rw [run, fault]

/-! ## Expressions -/

namespace Expr

/-- The expression stands for the number, no operation in it being faulty. -/
inductive Evaluates : Expr → Binary64 → Prop where
  | number {v} :
    Evaluates (.number v) v
  | plus {x v} :
    Evaluates x v →
    Evaluates (.signed .plus x) v
  | minus {x v} :
    Evaluates x v →
    Evaluates (.signed .minus x) v.neg
  | binary {op : BinaryOp} {a b v w r} :
    Evaluates a v →
    Evaluates b w →
    ¬ op.Faulty v w →
    op.Makes v w r →
    Evaluates (.binary op a b) r

/-- Evaluating the expression from left to right, operands first, meets a faulty operation. -/
inductive Faults : Expr → Prop where
  | signed {s x} :
    Faults x →
    Faults (.signed s x)
  | left {op a b} :
    Faults a →
    Faults (.binary op a b)
  | right {op a b v} :
    Evaluates a v →
    Faults b →
    Faults (.binary op a b)
  | here {op : BinaryOp} {a b v w} :
    Evaluates a v →
    Evaluates b w →
    op.Faulty v w →
    Faults (.binary op a b)

variable {e : Expr} {v : Binary64}

/-- A sign before an expression acts on its value. -/
lemma Evaluates.signed {x : Expr} (s : Sign) (value : x.Evaluates v) : (Expr.signed s x).Evaluates (s.actOn v) := by
  cases s with
  | plus => exact .plus value
  | minus => exact .minus value

/-- An operation is run at the values of its operands. -/
lemma eval_binary {op : BinaryOp} {a b : Expr} {v w : Binary64} (left : a.eval = pure v) (right : b.eval = pure w) :
    (binary op a b).eval = op.run v w := by
  rw [eval, left, Logged.pure_bind, right, Logged.pure_bind]

/-- Evaluation to a value reports nothing. -/
lemma Evaluates.eval_eq (h : e.Evaluates v) : e.eval = pure v := by
  induction h with
  | number => rfl
  | plus _ ih => rw [Expr.eval, ih, Logged.pure_bind, Sign.actOn]
  | minus _ ih => rw [Expr.eval, ih, Logged.pure_bind, Sign.actOn]
  | binary _ _ sound makes left right => rw [eval_binary left right, BinaryOp.run_of_makes sound makes]

/-- Evaluation that meets a faulty operation reports that operation alone. -/
lemma Faults.eval_eq (h : e.Faults) :
    ∃ event : Event, event.ReportsFault ∧ e.eval = .fail event .divisionByZero := by
  induction h with
  | signed _ ih =>
    obtain ⟨event, reports, same⟩ := ih
    exact ⟨event, reports, by rw [Expr.eval, same, Logged.fail_bind]⟩
  | left _ ih =>
    obtain ⟨event, reports, same⟩ := ih
    exact ⟨event, reports, by rw [Expr.eval, same, Logged.fail_bind]⟩
  | right left _ ih =>
    obtain ⟨event, reports, same⟩ := ih
    exact ⟨event, reports, by rw [Expr.eval, left.eval_eq, Logged.pure_bind, same, Logged.fail_bind]⟩
  | here left right faulty =>
    obtain ⟨event, reports, same⟩ := BinaryOp.run_of_faulty faulty
    exact ⟨event, reports, by rw [eval_binary left.eval_eq right.eval_eq, same]⟩

/-- The evaluator returns the number that an expression stands for. -/
lemma Evaluates.eval (h : e.Evaluates v) : e.eval.outcome = .ok v := by
  rw [h.eval_eq]
  rfl

/-- The evaluator fails with a division by zero when it meets a faulty operation. -/
lemma Faults.eval (h : e.Faults) : e.eval.outcome = .error .divisionByZero := by
  obtain ⟨event, -, same⟩ := h.eval_eq
  rw [same]
  rfl

/-- An expression has a value or meets a faulty operation. -/
lemma evaluates_or_faults (e : Expr) : (∃ v, e.Evaluates v) ∨ e.Faults := by
  induction e with
  | number v => exact .inl ⟨v, .number⟩
  | signed s x ih =>
    rcases ih with ⟨v, value⟩ | fault
    · exact .inl ⟨_, value.signed s⟩
    · exact .inr (.signed fault)
  | binary op a b ihLeft ihRight =>
    rcases ihLeft with ⟨v, left⟩ | fault
    · rcases ihRight with ⟨w, right⟩ | fault
      · by_cases faulty : op.Faulty v w
        · exact .inr (.here left right faulty)
        · exact .inl ⟨_, .binary left right faulty (BinaryOp.makes_iff.mpr rfl)⟩
      · exact .inr (.right left fault)
    · exact .inr (.left fault)

/-- The evaluator succeeds with the number that the expression stands for, and with no other. -/
lemma eval_eq_ok_iff : e.eval.outcome = .ok v ↔ e.Evaluates v := by
  constructor
  · intro h
    rcases e.evaluates_or_faults with ⟨w, value⟩ | fault
    · rw [value.eval] at h
      cases h
      exact value
    · rw [fault.eval] at h
      cases h
  · exact Evaluates.eval

/-- The evaluator fails only with a division by zero, exactly when the expression faults. -/
lemma eval_eq_error_iff {err : CalcError} :
    e.eval.outcome = .error err ↔ err = .divisionByZero ∧ e.Faults := by
  constructor
  · intro h
    rcases e.evaluates_or_faults with ⟨w, value⟩ | fault
    · rw [value.eval] at h
      cases h
    · rw [fault.eval] at h
      cases h
      exact ⟨rfl, fault⟩
  · rintro ⟨rfl, fault⟩
    exact fault.eval

end Expr

end Calculator
