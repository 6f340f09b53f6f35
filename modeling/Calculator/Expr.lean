import Calculator.Decimal.Layout

/-!
# Expressions

An expression is a number, an operator between two expressions, or a sign before one. Its text brackets
every operation and leaves signs bare; its depth counts the nodes on its longest path.
-/

namespace Calculator

/-- An operator between two expressions. -/
inductive BinaryOp where
  | add
  | sub
  | mul
  | div
  | mod
  | floorDiv
  | pow
deriving DecidableEq

namespace BinaryOp

/-- The text that writes an operator. -/
def symbol : BinaryOp → Text
  | add => ['+']
  | sub => ['-']
  | mul => ['*']
  | div => ['/']
  | mod => ['%']
  | floorDiv => ['/', '/']
  | pow => ['*', '*']

/-- Whether the right operand is a divisor. -/
def divides : BinaryOp → Bool
  | div => true
  | mod => true
  | floorDiv => true
  | _ => false

/-- The sign that an operator is read as where no value stands before it. -/
def sign? : BinaryOp → Option Sign
  | add => some .plus
  | sub => some .minus
  | _ => none

end BinaryOp

/-- An arithmetic expression. -/
inductive Expr where
  | number (value : Binary64)
  | binary (op : BinaryOp) (left right : Expr)
  | signed (sign : Sign) (operand : Expr)
deriving DecidableEq

namespace Expr

/-- The number of nodes on the longest path from the root to a number. -/
def depth : Expr → Nat
  | number _ => 1
  | binary _ a b => max a.depth b.depth + 1
  | signed _ x => x.depth + 1

/-- The text of an expression, with brackets around every operation. -/
def text : Expr → Text
  | number v => v.text
  | binary op a b => '(' :: a.text ++ ' ' :: op.symbol ++ ' ' :: b.text ++ [')']
  | signed s x => s.symbol :: x.text

end Expr

end Calculator
