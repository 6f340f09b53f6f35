import Calculator.Token

/-!
# The shunting yard

Tokens in reading order are put into postfix order in one pass. Numbers go straight to the output; operators
and opening brackets wait on a stack until something that binds less tightly, or a closing bracket, lets
them out. Whether a value has just ended decides if a plus or minus is an operator or a sign, and refuses
two values or two operators in a row. The number of open brackets is bounded.

Sums bind least, then products, then signs, then powers; powers group to the right, the others to the left.
A sign is pushed without letting anything out, so it may also stand in an exponent.
-/

namespace Calculator

/-- Why tokens are not an expression, or nest too deeply. -/
inductive SyntaxError where
  | adjacentValues
  | groupAfterValue
  | nestedTooDeep
  | unexpectedClose
  | closeWithoutOpen
  | missingLeftOperand
  | internalToken
  | incomplete
  | unclosedGroup
deriving DecidableEq

/-- The message of a syntax error. -/
def SyntaxError.message : SyntaxError → String
  | adjacentValues => "deux valeurs adjacentes"
  | groupAfterValue => "parenthèse ouvrante après une valeur"
  | nestedTooDeep => "parenthèses trop imbriquées"
  | unexpectedClose => "parenthèse fermante inattendue"
  | closeWithoutOpen => "parenthèse fermante sans ouvrante"
  | missingLeftOperand => "opérateur sans opérande gauche"
  | internalToken => "jeton interne inattendu"
  | incomplete => "expression incomplète"
  | unclosedGroup => "parenthèses non fermées"

namespace BinaryOp

/-- How tightly an operator binds; a sign binds with strength 3. -/
def strength : BinaryOp → Nat
  | add => 1
  | sub => 1
  | mul => 2
  | div => 2
  | mod => 2
  | floorDiv => 2
  | pow => 4

/-- Whether a chain of the operator groups to the right. -/
def groupsRight : BinaryOp → Bool
  | pow => true
  | _ => false

/-- Whether a waiting operator of the given strength takes its right operand before this operator does. -/
def yieldsTo (op : BinaryOp) (waiting : Nat) : Bool :=
  if op.groupsRight then decide (op.strength < waiting) else decide (op.strength ≤ waiting)

end BinaryOp

/-- Whether a token on the stack goes to the output before the operator is pushed. -/
def Token.leavesBefore (op : BinaryOp) : Token → Bool
  | .op waiting => op.yieldsTo waiting.strength
  | .sign _ => op.yieldsTo 3
  | _ => false

/-- Whether a token is an opening bracket. -/
def Token.opensGroup : Token → Bool
  | .lparen => true
  | _ => false

/-- The state of the yard: the output and the stack, each with its last token first, the number of open
brackets, and whether a value has just ended. -/
structure Yard where
  output : List Token
  stack : List Token
  openGroups : Nat
  afterValue : Bool
deriving DecidableEq

namespace Yard

/-- The yard before the first token. -/
def empty : Yard :=
  ⟨[], [], 0, false⟩

/-- The waiting tokens that pass a test, down to the first that does not, go to the output. -/
def release (y : Yard) (leaves : Token → Bool) : Yard :=
  { y with
    output := (y.stack.takeWhile leaves).reverse ++ y.output
    stack := y.stack.dropWhile leaves }

/-- A number goes to the output. -/
def number (y : Yard) (v : Binary64) : Except SyntaxError Yard :=
  if y.afterValue then .error .adjacentValues
  else .ok { y with output := .number v :: y.output, afterValue := true }

/-- An opening bracket waits on the stack. -/
def openGroup (limit : Nat) (y : Yard) : Except SyntaxError Yard :=
  if y.afterValue then .error .groupAfterValue
  else if limit < y.openGroups + 1 then .error .nestedTooDeep
  else .ok { y with stack := .lparen :: y.stack, openGroups := y.openGroups + 1 }

/-- A closing bracket lets out everything down to its opening bracket, and removes that. -/
def closeGroup (y : Yard) : Except SyntaxError Yard :=
  if y.afterValue then
    let released := y.release (!·.opensGroup)
    match released.stack with
    | [] => .error .closeWithoutOpen
    | _ :: below => .ok { released with stack := below, openGroups := y.openGroups - 1 }
  else .error .unexpectedClose

/-- An operator after a value lets out what binds tighter and waits; before a value it is a sign or an
error. -/
def operator (y : Yard) (op : BinaryOp) : Except SyntaxError Yard :=
  if y.afterValue then
    let released := y.release (·.leavesBefore op)
    .ok { released with stack := .op op :: released.stack, afterValue := false }
  else
    match op.sign? with
    | some s => .ok { y with stack := .sign s :: y.stack }
    | none => .error .missingLeftOperand

/-- The yard after one more token. -/
def step (limit : Nat) (y : Yard) : Token → Except SyntaxError Yard
  | .number v => y.number v
  | .lparen => y.openGroup limit
  | .rparen => y.closeGroup
  | .op op => y.operator op
  | .sign _ => .error .internalToken

/-- The yard after all the tokens. -/
def run (limit : Nat) (y : Yard) : List Token → Except SyntaxError Yard
  | [] => .ok y
  | t :: ts =>
    match y.step limit t with
    | .error e => .error e
    | .ok next => run limit next ts

/-- Running through two runs of tokens is running through the one, then through the other. -/
theorem run_append (limit : Nat) (y : Yard) (ts us : List Token) :
    y.run limit (ts ++ us) = (y.run limit ts).bind (·.run limit us) := by
  induction ts generalizing y with
  | nil => rfl
  | cons t ts ih =>
    rw [List.cons_append, run, run]
    cases y.step limit t with
    | error e => rfl
    | ok next => exact ih next

/-- The whole output, once the waiting tokens have gone to it. -/
def finish (y : Yard) : Except SyntaxError (List Token) :=
  if y.afterValue then
    if y.stack.any Token.opensGroup then .error .unclosedGroup
    else .ok (y.output.reverse ++ y.stack)
  else .error .incomplete

end Yard

/-- The tokens of an expression put into postfix order; at most `limit` brackets may be open at once. -/
def toPostorder (limit : Nat) (tokens : List Token) : Except SyntaxError (List Token) :=
  match Yard.empty.run limit tokens with
  | .error e => .error e
  | .ok y => y.finish

end Calculator
