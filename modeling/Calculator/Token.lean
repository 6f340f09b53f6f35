import Calculator.Expr

/-!
# Tokens

The tokens of an expression: numbers, operators and brackets as they are read from a text, and prefix signs,
which appear only where an expression is listed in postfix order.
-/

namespace Calculator

/-- A token. -/
inductive Token where
  | number (value : Binary64)
  | op (op : BinaryOp)
  | sign (sign : Sign)
  | lparen
  | rparen
deriving DecidableEq

namespace Token

/-- The text of a token. -/
def text : Token → Text
  | number v => v.text
  | op o => o.symbol
  | sign .minus => ['n', 'e', 'g']
  | sign .plus => ['p', 'o', 's']
  | lparen => ['(']
  | rparen => [')']

/-- The texts of tokens, one space between neighbours. -/
def listText : List Token → Text
  | [] => []
  | [t] => t.text
  | t :: ts => t.text ++ ' ' :: listText ts

end Token

/-- The tokens of an expression in postfix order: the operands from left to right, then the operator. -/
def Expr.postorder : Expr → List Token
  | number v => [.number v]
  | binary op a b => a.postorder ++ b.postorder ++ [.op op]
  | signed s x => x.postorder ++ [.sign s]

end Calculator
