import Mathlib.Tactic.Lemma
import Calculator.Forest

/-!
# Building from a postfix listing

The builder turns the postfix listing of an expression back into it, whatever trees are on its stack, and
refuses it exactly when the expression is deeper than the limit (`Expr.ofPostorder_postorder`). So a listing
determines its expression (`Expr.postorder_injective`).
-/

namespace Calculator

namespace Forest

/-- A tree is put on top when it is within the limit. -/
lemma grow_eq (limit : Nat) (forest : Forest) (tree : Expr) (depth : Nat) :
    grow limit forest tree depth =
      if depth ≤ limit then .ok ((tree, depth) :: forest) else .error (.tooDeep limit) := by
  unfold grow
  by_cases fits : depth ≤ limit
  · rw [if_pos fits, if_neg (Nat.not_lt.mpr fits)]
  · rw [if_neg fits, if_pos (Nat.not_le.mp fits)]

/-- Building from one token is one step. -/
lemma run_singleton (limit : Nat) (forest : Forest) (t : Token) :
    run limit forest [t] = step limit forest t := by
  rw [run]
  cases step limit forest t <;> rfl

/-- A run over a postfix listing pushes the listed expression, unless it is too deep. -/
lemma run_postorder (limit : Nat) (forest : Forest) (e : Expr) :
    run limit forest e.postorder =
      if e.depth ≤ limit then .ok ((e, e.depth) :: forest) else .error (.tooDeep limit) := by
  -- the right operand is built on top of the left one, so the induction is for every forest
  induction e generalizing forest with
  | number v =>
    rw [Expr.postorder, run_singleton]
    exact grow_eq limit forest (.number v) 1
  | signed s x ih =>
    rw [Expr.postorder, run_append, ih]
    by_cases fits : x.depth ≤ limit
    · rw [if_pos fits]
      exact (run_singleton limit _ (.sign s)).trans (grow_eq limit forest (.signed s x) (x.depth + 1))
    · rw [if_neg fits, if_neg (by simp only [Expr.depth]; omega)]
      rfl
  | binary op a b left right =>
    rw [Expr.postorder, run_append, run_append, left]
    by_cases fitsLeft : a.depth ≤ limit
    · rw [if_pos fitsLeft]
      simp only [Except.bind, right]
      by_cases fitsRight : b.depth ≤ limit
      · rw [if_pos fitsRight]
        exact (run_singleton limit _ (.op op)).trans
          (grow_eq limit forest (.binary op a b) (max a.depth b.depth + 1))
      · rw [if_neg fitsRight, if_neg (by simp only [Expr.depth]; omega)]
    · rw [if_neg fitsLeft, if_neg (by simp only [Expr.depth]; omega)]
      rfl

end Forest

namespace Expr

/-- Building from the listing of an expression gives it back, unless it is too deep. -/
lemma ofPostorder_postorder (limit : Nat) (e : Expr) :
    ofPostorder limit e.postorder =
      if e.depth ≤ limit then .ok e else .error (.tooDeep limit) := by
  rw [ofPostorder, Forest.run_postorder]
  by_cases fits : e.depth ≤ limit
  · rw [if_pos fits, if_pos fits]
    rfl
  · rw [if_neg fits, if_neg fits]

/-- A postfix listing determines its expression. -/
lemma postorder_injective {a b : Expr} (same : a.postorder = b.postorder) : a = b := by
  have left := ofPostorder_postorder (max a.depth b.depth) a
  have right := ofPostorder_postorder (max a.depth b.depth) b
  rw [if_pos (Nat.le_max_left _ _)] at left
  rw [if_pos (Nat.le_max_right _ _), ← same, left] at right
  exact Except.ok.inj right

end Expr

end Calculator
