import Calculator.Journal
import Calculator.Binary64.FloorDivision
import Calculator.Binary64.Power

/-!
# Evaluation

An expression is evaluated in postfix order, the left operand before the right. An operation is faulty when
its divisor is a zero, or when a zero is raised to a power below zero; the first faulty operation ends the
evaluation and is reported with its operands.
-/

namespace Calculator

namespace BinaryOp

/-- The value of an operator at two numbers. -/
def apply : BinaryOp → Binary64 → Binary64 → Binary64
  | add => Binary64.add
  | sub => Binary64.sub
  | mul => Binary64.mul
  | div => Binary64.div
  | mod => Binary64.mod
  | floorDiv => Binary64.floorDiv
  | pow => Binary64.pow

/-- The report of a faulty operation; `none` when the operation is sound. -/
def fault? (op : BinaryOp) (a b : Binary64) : Option Event :=
  if op.divides && b.isZero then some (.zeroDivisor a op)
  else if decide (op = .pow) && a.isZero && b.isNegative then some (.zeroToNegative a b)
  else none

/-- The operation at two numbers, which fails when it is faulty. -/
def run (op : BinaryOp) (a b : Binary64) : Logged Binary64 :=
  match op.fault? a b with
  | some event => .fail event .divisionByZero
  | none => pure (op.apply a b)

end BinaryOp

/-- The number with a sign put before it. -/
def Sign.actOn : Sign → Binary64 → Binary64
  | plus, v => v
  | minus, v => v.neg

/-- The value of an expression. -/
def Expr.eval : Expr → Logged Binary64
  | number v => pure v
  | binary op a b => do
    let left ← a.eval
    let right ← b.eval
    op.run left right
  | signed s x => do
    let v ← x.eval
    pure (s.actOn v)

end Calculator
