import Calculator.Token

/-!
# Building trees

Tokens in postfix order are built into an expression with a stack of trees: a number is a new tree, a sign
or an operator takes its operands from the top. Every tree on the stack is kept with its depth, which is
bounded. A bracket is refused, and so is a token that is neither a value, a sign nor an operator.
-/

namespace Calculator

/-- Why tokens in postfix order do not list an expression, or list one that is too deep. -/
inductive TreeError where
  | tooDeep (limit : Nat)
  | missingSignOperand
  | unbalanced
  | bracket
  | unexpected
deriving DecidableEq

/-- The message of a tree error. -/
def TreeError.message : TreeError → String
  | tooDeep limit => "arbre trop profond (> " ++ toString limit ++ ")"
  | missingSignOperand => "signe sans opérande"
  | unbalanced => "expression invalide"
  | bracket => "parenthèse inattendue en RPN"
  | unexpected => "jeton inattendu en RPN"

/-- The operator between two values that a token is. -/
def Token.binary? : Token → Option BinaryOp
  | .op operator => some operator
  | _ => none

/-- The trees built so far with their depths, the last one first. -/
abbrev Forest := List (Expr × Nat)

namespace Forest

/-- The forest with one more tree, unless the tree is too deep. -/
def grow (limit : Nat) (forest : Forest) (tree : Expr) (depth : Nat) : Except TreeError Forest :=
  if limit < depth then .error (.tooDeep limit) else .ok ((tree, depth) :: forest)

/-- The forest after one more token. -/
def step (limit : Nat) (forest : Forest) : Token → Except TreeError Forest
  | .number v => grow limit forest (.number v) 1
  | .sign s =>
    match forest with
    | (x, d) :: rest => grow limit rest (.signed s x) (d + 1)
    | [] => .error .missingSignOperand
  | .lparen => .error .bracket
  | .rparen => .error .bracket
  | t =>
    match t.binary? with
    | none => .error .unexpected
    | some op =>
      match forest with
      | (b, n) :: (a, m) :: rest => grow limit rest (.binary op a b) (max m n + 1)
      | _ => .error .unbalanced

/-- The forest after all the tokens. -/
def run (limit : Nat) (forest : Forest) : List Token → Except TreeError Forest
  | [] => .ok forest
  | t :: ts =>
    match step limit forest t with
    | .error e => .error e
    | .ok next => run limit next ts

/-- Building from two runs of tokens is building from the one, then from the other. -/
theorem run_append (limit : Nat) (forest : Forest) (ts us : List Token) :
    run limit forest (ts ++ us) = (run limit forest ts).bind (run limit · us) := by
  induction ts generalizing forest with
  | nil => rfl
  | cons t ts ih =>
    rw [List.cons_append, run, run]
    cases step limit forest t with
    | error e => rfl
    | ok next => exact ih next

/-- The only tree of a forest. -/
def single : Forest → Except TreeError Expr
  | [(x, _)] => .ok x
  | _ => .error .unbalanced

end Forest

/-- The expression that tokens in postfix order list; no path of it may exceed `limit` nodes. -/
def Expr.ofPostorder (limit : Nat) (tokens : List Token) : Except TreeError Expr :=
  match Forest.run limit [] tokens with
  | .error e => .error e
  | .ok forest => forest.single

end Calculator
