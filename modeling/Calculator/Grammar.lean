import Calculator.Token

/-!
# The grammar of expressions

The expressions that tokens may write, as a relation between tokens and the tree that they stand for. A sum
is a chain of products joined by plus and minus, a product a chain of signed terms joined by the operators
of division and multiplication, both grouped to the left; a signed term is a sign before a signed term, or
a power; a power is a primary, alone or raised to a signed term; a primary is a number or a sum in brackets.
-/

namespace Calculator

/-- The five levels of the grammar, from the loosest to the tightest. -/
inductive Level where
  | sum
  | product
  | signed
  | power
  | primary
deriving DecidableEq

/-- Whether an operator joins the terms of a sum. -/
def BinaryOp.joinsSum (op : BinaryOp) : Prop :=
  op = .add ∨ op = .sub

/-- Whether an operator joins the factors of a product. -/
def BinaryOp.joinsProduct (op : BinaryOp) : Prop :=
  op = .mul ∨ op = .div ∨ op = .floorDiv ∨ op = .mod

/-- The token that writes a sign in an expression: the operator with the same symbol. -/
def Sign.written : Sign → Token
  | plus => .op .add
  | minus => .op .sub

/-- The tokens write the expression at the given level of the grammar. -/
inductive Derives : Level → List Token → Expr → Prop where
  | number {v} :
    Derives .primary [.number v] (.number v)
  | group {ts e} :
    Derives .sum ts e →
    Derives .primary (.lparen :: ts ++ [.rparen]) e
  | base {ts e} :
    Derives .primary ts e →
    Derives .power ts e
  | raise {ts us a b} :
    Derives .primary ts a →
    Derives .signed us b →
    Derives .power (ts ++ .op .pow :: us) (.binary .pow a b)
  | unsigned {ts e} :
    Derives .power ts e →
    Derives .signed ts e
  | sign {s ts e} :
    Derives .signed ts e →
    Derives .signed (s.written :: ts) (.signed s e)
  | factor {ts e} :
    Derives .signed ts e →
    Derives .product ts e
  | multiply {op : BinaryOp} {ts us a b} :
    op.joinsProduct →
    Derives .product ts a →
    Derives .signed us b →
    Derives .product (ts ++ .op op :: us) (.binary op a b)
  | term {ts e} :
    Derives .product ts e →
    Derives .sum ts e
  | join {op : BinaryOp} {ts us a b} :
    op.joinsSum →
    Derives .sum ts a →
    Derives .product us b →
    Derives .sum (ts ++ .op op :: us) (.binary op a b)

/-- The greatest number of brackets open at once while the tokens are read, when `opened` are open before
them; a closing bracket without an opening one closes nothing. -/
def nestingFrom (opened : Nat) : List Token → Nat
  | [] => opened
  | .lparen :: ts => max opened (nestingFrom (opened + 1) ts)
  | .rparen :: ts => max opened (nestingFrom (opened - 1) ts)
  | _ :: ts => nestingFrom opened ts

/-- The greatest number of brackets open at once in the tokens. -/
def nesting (tokens : List Token) : Nat :=
  nestingFrom 0 tokens

end Calculator
