import Mathlib.Tactic.Lemma
import Calculator.Yard

/-!
# What one token does

A yard takes a token in one of five ways: a number goes to the output, a bracket is opened or closed, an operator
waits after it has let others out, or a sign waits. `Yard.Moves` lists them with what each asks for and what each
leaves behind, and `Yard.step_eq_ok_iff` says that the yard takes tokens in these ways only.
-/

namespace Calculator

namespace Yard

/-- One more token takes the yard to the next. -/
inductive Moves (limit : Nat) (y : Yard) : Token → Yard → Prop where
  | number {v} :
    y.afterValue = false →
    Moves limit y (.number v) { y with output := .number v :: y.output, afterValue := true }
  | openGroup :
    y.afterValue = false →
    y.openGroups + 1 ≤ limit →
    Moves limit y .lparen { y with stack := .lparen :: y.stack, openGroups := y.openGroups + 1 }
  | closeGroup {below} :
    y.afterValue = true →
    (y.release (!·.opensGroup)).stack = .lparen :: below →
    Moves limit y .rparen
      { y.release (!·.opensGroup) with stack := below, openGroups := y.openGroups - 1 }
  | operator {op} :
    y.afterValue = true →
    Moves limit y (.op op)
      { y.release (·.leavesBefore op) with
        stack := .op op :: (y.release (·.leavesBefore op)).stack
        afterValue := false }
  | sign {op : BinaryOp} {s} :
    y.afterValue = false →
    op.sign? = some s →
    Moves limit y (.op op) { y with stack := .sign s :: y.stack }

variable {limit : Nat} {y next : Yard} {t : Token}

/-- What is left on top of the stack when a bracket closes is the bracket that opened the group. -/
lemma eq_lparen_of_release {below : List Token} (left : (y.release (!·.opensGroup)).stack = t :: below) :
    t = .lparen := by
  have kept := List.head?_dropWhile_not (!·.opensGroup) y.stack
  rw [show y.stack.dropWhile (!·.opensGroup) = t :: below from left] at kept
  cases t with
  | lparen => rfl
  | _ => cases kept

/-- A yard takes a token exactly when it moves. -/
lemma step_eq_ok_iff : y.step limit t = .ok next ↔ y.Moves limit t next := by
  constructor
  · intro stepped
    cases t with
    | number v =>
      simp only [step, Yard.number] at stepped
      split at stepped
      · cases stepped
      · rename_i fresh
        cases stepped
        exact .number (eq_false_of_ne_true fresh)
    | lparen =>
      simp only [step, Yard.openGroup] at stepped
      split at stepped
      · cases stepped
      · rename_i fresh
        split at stepped
        · cases stepped
        · rename_i room
          cases stepped
          exact .openGroup (eq_false_of_ne_true fresh) (Nat.le_of_not_lt room)
    | rparen =>
      simp only [step, Yard.closeGroup] at stepped
      split at stepped
      · rename_i value
        split at stepped
        · cases stepped
        · rename_i top below left
          cases stepped
          exact .closeGroup value (eq_lparen_of_release left ▸ left)
      · cases stepped
    | op op =>
      simp only [step, Yard.operator] at stepped
      split at stepped
      · rename_i value
        cases stepped
        exact .operator value
      · rename_i fresh
        split at stepped
        · rename_i s written
          cases stepped
          exact .sign (eq_false_of_ne_true fresh) written
        · cases stepped
    | sign s => cases stepped
  · intro moves
    cases moves with
    | number fresh => simp [step, Yard.number, fresh]
    | openGroup fresh room => simp [step, Yard.openGroup, fresh, Nat.not_lt.mpr room]
    | closeGroup value left => simp [step, Yard.closeGroup, value, left]
    | operator value => simp [step, Yard.operator, value]
    | sign fresh written => simp [step, Yard.operator, fresh, written]

/-- A list of tokens is accepted when the yard moves by the first and the others are accepted then. -/
lemma run_cons_eq_ok_iff {ts : List Token} : y.run limit (t :: ts) = .ok next ↔
    ∃ mid, y.Moves limit t mid ∧ mid.run limit ts = .ok next := by
  rw [run]
  cases stepped : y.step limit t with
  | error e =>
    refine iff_of_false (by simp) ?_
    rintro ⟨mid, moves, -⟩
    rw [step_eq_ok_iff.mpr moves] at stepped
    cases stepped
  | ok mid =>
    refine ⟨fun ran => ⟨mid, step_eq_ok_iff.mp stepped, ran⟩, ?_⟩
    rintro ⟨other, moves, ran⟩
    rw [step_eq_ok_iff.mpr moves] at stepped
    cases stepped
    exact ran

end Yard

/-- Tokens are put in postfix order when the yard accepts them and finishes. -/
lemma toPostorder_eq_ok_iff {limit : Nat} {ts output : List Token} :
    toPostorder limit ts = .ok output ↔ ∃ y, Yard.empty.run limit ts = .ok y ∧ y.finish = .ok output := by
  rw [toPostorder]
  cases Yard.empty.run limit ts with
  | error e => simp
  | ok y => simp

end Calculator
