import Mathlib.Tactic.Lemma
import Calculator.Grammar
import Calculator.Yard

/-!
# Levels and strengths

The levels of the grammar and the strengths of operators order the same things: an expression of a level shows,
outside brackets, only operators at least as strong as the level. Seen so, the three rules of the grammar for
operators are one rule (`Derives.binary`), and an expression of a level is one of every looser level
(`Derives.loosen`). The brackets that an expression opens are closed in it, so nesting may be counted part by
part (`Derives.nestingFrom_append`); and a tree holds nothing but its tokens (`Derives.mem_of_mem_postorder`).
-/

namespace Calculator

/-- The least strength of an operator that an expression of the level shows outside brackets. -/
def Level.strength : Level → Nat
  | sum => 1
  | product => 2
  | signed => 3
  | power => 4
  | primary => 5

namespace BinaryOp

/-- The level of the expressions that an operator builds. -/
def level : BinaryOp → Level
  | add => .sum
  | sub => .sum
  | mul => .product
  | div => .product
  | mod => .product
  | floorDiv => .product
  | pow => .power

/-- The level of the left operand. -/
def leftLevel : BinaryOp → Level
  | add => .sum
  | sub => .sum
  | mul => .product
  | div => .product
  | mod => .product
  | floorDiv => .product
  | pow => .primary

/-- The level of the right operand. -/
def rightLevel : BinaryOp → Level
  | add => .product
  | sub => .product
  | mul => .signed
  | div => .signed
  | mod => .signed
  | floorDiv => .signed
  | pow => .signed

/-- An operator binds as tightly as the expressions that it builds. -/
lemma strength_level (op : BinaryOp) : op.level.strength = op.strength := by
  cases op <;> rfl

/-- The left operand of an operator binds at least as tightly as what the operator builds. -/
lemma level_le_leftLevel (op : BinaryOp) : op.level.strength ≤ op.leftLevel.strength := by
  cases op <;> decide

/-- An operator that may follow the whole may follow the right operand on its own. -/
lemma leftLevel_le_rightLevel {op next : BinaryOp}
    (le : next.leftLevel.strength ≤ op.level.strength) :
    next.leftLevel.strength ≤ op.rightLevel.strength := by
  cases op <;> cases next <;> revert le <;> decide

end BinaryOp

/-- How tightly a token on the stack binds; a bracket does not bind. -/
def Token.strength : Token → Nat
  | op o => o.strength
  | sign _ => 3
  | _ => 0

/-- A token leaves the stack before an operator exactly when it is as strong as the left operand. -/
lemma Token.leavesBefore_iff (op : BinaryOp) (t : Token) :
    t.leavesBefore op = true ↔ op.leftLevel.strength ≤ t.strength := by
  cases t with
  | op o => cases op <;> cases o <;> decide
  | sign s => cases op <;> cases s <;> decide
  | number v => cases op <;> simp [leavesBefore, strength, BinaryOp.leftLevel, Level.strength]
  | lparen => cases op <;> decide
  | rparen => cases op <;> decide

namespace Derives

variable {ts us : List Token} {e a b : Expr}

/-- What binds at least as tightly as a power stands where a power may. -/
lemma toPower {K : Level} (d : Derives K ts e) (le : 4 ≤ K.strength) : Derives .power ts e := by
  cases K with
  | primary => exact .base d
  | power => exact d
  | signed => exact absurd le (by decide)
  | product => exact absurd le (by decide)
  | sum => exact absurd le (by decide)

/-- What binds at least as tightly as a sign stands where a signed expression may. -/
lemma toSigned {K : Level} (d : Derives K ts e) (le : 3 ≤ K.strength) : Derives .signed ts e := by
  cases K with
  | primary => exact .unsigned (.base d)
  | power => exact .unsigned d
  | signed => exact d
  | product => exact absurd le (by decide)
  | sum => exact absurd le (by decide)

/-- What binds at least as tightly as a product stands where a product may. -/
lemma toProduct {K : Level} (d : Derives K ts e) (le : 2 ≤ K.strength) : Derives .product ts e := by
  cases K with
  | product => exact d
  | sum => exact absurd le (by decide)
  | _ => exact .factor (d.toSigned (by decide))

/-- Every expression stands where a sum may. -/
lemma toSum {K : Level} (d : Derives K ts e) : Derives .sum ts e := by
  cases K with
  | sum => exact d
  | _ => exact .term (d.toProduct (by decide))

/-- An expression of a level is an expression of every looser level. -/
lemma loosen {K L : Level} (d : Derives K ts e) (le : L.strength ≤ K.strength) : Derives L ts e := by
  cases L with
  | sum => exact d.toSum
  | product => exact d.toProduct le
  | signed => exact d.toSigned le
  | power => exact d.toPower le
  | primary =>
    cases K with
    | primary => exact d
    | _ => exact absurd le (by decide)

/-- An operator between two operands of its levels derives an expression of its own level. -/
lemma binary {op : BinaryOp} (left : Derives op.leftLevel ts a) (right : Derives op.rightLevel us b) :
    Derives op.level (ts ++ .op op :: us) (.binary op a b) := by
  cases op with
  | add => exact .join (.inl rfl) left right
  | sub => exact .join (.inr rfl) left right
  | mul => exact .multiply (.inl rfl) left right
  | div => exact .multiply (.inr (.inl rfl)) left right
  | floorDiv => exact .multiply (.inr (.inr (.inl rfl))) left right
  | mod => exact .multiply (.inr (.inr (.inr rfl))) left right
  | pow => exact .raise left right

/-- Two signed terms are operands of every operator but that of powers. -/
lemma binary_of_signed {op : BinaryOp} (noPower : op ≠ .pow) (left : Derives .signed ts a)
    (right : Derives .signed us b) : Derives .sum (ts ++ .op op :: us) (.binary op a b) := by
  have looseLeft : op.leftLevel.strength ≤ Level.signed.strength := by
    cases op <;> first | decide | exact absurd rfl noPower
  have looseRight : op.rightLevel.strength ≤ Level.signed.strength := by
    cases op <;> decide
  exact (Derives.binary (left.loosen looseLeft) (right.loosen looseRight)).toSum

end Derives

/-- As many brackets are open at once as are open before the first token. -/
lemma le_nestingFrom (opened : Nat) (ts : List Token) : opened ≤ nestingFrom opened ts := by
  induction ts with
  | nil => exact Nat.le_refl _
  | cons t ts ih =>
    cases t with
    | lparen => exact Nat.le_max_left _ _
    | rparen => exact Nat.le_max_left _ _
    | number v => exact ih
    | op o => exact ih
    | sign s => exact ih

/-- An expression closes the brackets that it opens: what follows it is counted from where it began. -/
lemma Derives.nestingFrom_append {L : Level} {ts : List Token} {e : Expr} (d : Derives L ts e)
    (opened : Nat) (rest : List Token) :
    nestingFrom opened (ts ++ rest) = max (nestingFrom opened ts) (nestingFrom opened rest) := by
  -- what is open before an operand depends on the brackets around it, what follows it on the operators
  induction d generalizing opened rest with
  | number => exact (Nat.max_eq_right (le_nestingFrom opened rest)).symm
  | group _ ih =>
    have closed := le_nestingFrom opened rest
    simp only [List.cons_append, List.append_assoc, nestingFrom, ih, List.nil_append, Nat.add_sub_cancel]
    omega
  | base _ ih => exact ih opened rest
  | unsigned _ ih => exact ih opened rest
  | factor _ ih => exact ih opened rest
  | term _ ih => exact ih opened rest
  | @sign s _ _ _ ih => cases s <;> exact ih opened rest
  | raise _ _ left right =>
    simp only [List.cons_append, List.append_assoc, left, right, nestingFrom]
    omega
  | multiply _ _ _ left right =>
    simp only [List.cons_append, List.append_assoc, left, right, nestingFrom]
    omega
  | join _ _ _ left right =>
    simp only [List.cons_append, List.append_assoc, left, right, nestingFrom]
    omega

/-! ## The tokens of a tree -/

/-- The listing of an operation has the tokens of its left operand. -/
lemma Expr.mem_postorder_of_left {op : BinaryOp} {a b : Expr} {t : Token} (mem : t ∈ a.postorder) :
    t ∈ (binary op a b).postorder :=
  List.mem_append_left _ (List.mem_append_left _ mem)

/-- The listing of an operation has the tokens of its right operand. -/
lemma Expr.mem_postorder_of_right {op : BinaryOp} {a b : Expr} {t : Token} (mem : t ∈ b.postorder) :
    t ∈ (binary op a b).postorder :=
  List.mem_append_left _ (List.mem_append_right _ mem)

/-- A token in the listing of an operation is the operator or comes from an operand. -/
lemma Expr.mem_of_mem_postorder_binary {op : BinaryOp} {a b : Expr} {ts us : List Token} {t : Token}
    (left : t ∈ a.postorder → t ∈ ts) (right : t ∈ b.postorder → t ∈ us) (mem : t ∈ (binary op a b).postorder) :
    t ∈ ts ++ .op op :: us := by
  rw [postorder, List.append_assoc] at mem
  rcases List.mem_append.mp mem with mem | mem
  · exact List.mem_append_left _ (left mem)
  · rcases List.mem_append.mp mem with mem | mem
    · exact List.mem_append_right _ (List.mem_cons_of_mem _ (right mem))
    · cases List.mem_singleton.mp mem
      exact List.mem_append_right _ List.mem_cons_self

/-- An expression has tokens. -/
lemma Derives.ne_nil {L : Level} {ts : List Token} {e : Expr} (d : Derives L ts e) : ts ≠ [] := by
  induction d with
  | base _ ih => exact ih
  | unsigned _ ih => exact ih
  | factor _ ih => exact ih
  | term _ ih => exact ih
  | _ => simp

/-- The numbers and operators of a tree are among the tokens that write it; its signs are written as operators. -/
lemma Derives.mem_of_mem_postorder {L : Level} {ts : List Token} {e : Expr} (d : Derives L ts e) {t : Token}
    (noSign : ∀ s, t ≠ .sign s) (mem : t ∈ e.postorder) : t ∈ ts := by
  induction d with
  | number => exact mem
  | group _ ih => exact List.mem_cons_of_mem _ (List.mem_append_left _ (ih mem))
  | base _ ih => exact ih mem
  | unsigned _ ih => exact ih mem
  | factor _ ih => exact ih mem
  | term _ ih => exact ih mem
  | sign _ ih =>
    rcases List.mem_append.mp mem with mem | mem
    · exact List.mem_cons_of_mem _ (ih mem)
    · exact absurd (List.mem_singleton.mp mem) (noSign _)
  | raise _ _ left right => exact Expr.mem_of_mem_postorder_binary left right mem
  | multiply _ _ _ left right => exact Expr.mem_of_mem_postorder_binary left right mem
  | join _ _ _ left right => exact Expr.mem_of_mem_postorder_binary left right mem

end Calculator
