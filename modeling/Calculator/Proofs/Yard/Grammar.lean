import Calculator.Proofs.Postorder
import Calculator.Proofs.Yard.Frames

/-!
# The yard decides the grammar

Run on an expression, the yard puts part of its postfix listing into the output and leaves the rest on the
stack, where every operator that may follow lets it out (`Level.Lists`). With the converse from the frames of
the stack, the yard accepts exactly the expressions that nest within the limit and lists their trees; since a
tree is determined by its listing, no tokens write two trees. Main statement: `toPostorder_ok_iff_derives`.
-/

namespace Calculator

/-- A token leaves the stack before every operator that may follow an expression of the level. -/
def Level.Releases (L : Level) (t : Token) : Prop :=
  ∀ op : BinaryOp, op.leftLevel.strength ≤ L.strength → t.leavesBefore op = true

namespace Level.Releases

variable {L : Level} {t : Token} {op : BinaryOp}

/-- What is released is no opening bracket. -/
lemma opensGroup_eq_false (r : L.Releases t) : t.opensGroup = false := by
  cases t with
  | lparen =>
    have leaves := r .add (by cases L <;> decide)
    cases leaves
  | _ => rfl

/-- What the right operand of an operator releases is released by what the operator builds. -/
lemma of_right (r : op.rightLevel.Releases t) : op.level.Releases t :=
  fun next may => r next (BinaryOp.leftLevel_le_rightLevel may)

/-- An operator is released by what it builds. -/
lemma operator : op.level.Releases (.op op) := by
  intro next may
  rw [Token.leavesBefore_iff]
  exact Nat.le_trans may (Nat.le_of_eq op.strength_level)

/-- A sign is released by a signed expression. -/
lemma sign {s : Sign} : Level.signed.Releases (.sign s) := by
  intro next may
  rw [Token.leavesBefore_iff]
  exact may

end Level.Releases

/-- Tokens that all leave leave together, down to the first that stays. -/
lemma Yard.release_append {leaves : Token → Bool} {pending : List Token} (below output : List Token)
    (openGroups : Nat) (afterValue : Bool) (go : ∀ t ∈ pending, leaves t = true)
    (stays : ∀ t ∈ below.head?, leaves t = false) :
    (⟨output, pending ++ below, openGroups, afterValue⟩ : Yard).release leaves =
      ⟨pending.reverse ++ output, below, openGroups, afterValue⟩ := by
  cases below with
  | nil => simpa [release] using go
  | cons t below =>
    have stay : leaves t = false := stays t rfl
    simp [release, List.takeWhile_append_of_pos go, List.dropWhile_append_of_pos go, stay]

/-- Run on the tokens from any yard that waits for an operand of the level, the yard lists the expression: what
is not in the output waits on the stack and leaves before whatever may follow. -/
def Level.Lists (L : Level) (ts : List Token) (e : Expr) : Prop :=
  ∀ (limit : Nat) (y : Yard), y.afterValue = false → nestingFrom y.openGroups ts ≤ limit →
    (operandLevel y.stack).strength ≤ L.strength →
    ∃ out pending,
      y.run limit ts = .ok ⟨out.reverse ++ y.output, pending ++ y.stack, y.openGroups, true⟩ ∧
      out ++ pending = e.postorder ∧ ∀ t ∈ pending, L.Releases t

namespace Level.Lists

variable {K L : Level} {ts us : List Token} {e a b : Expr}

/-- What is listed at a level is listed at every level that binds less tightly. -/
lemma loosen (l : K.Lists ts e) (le : L.strength ≤ K.strength) : L.Lists ts e := by
  intro limit y fresh fits waits
  obtain ⟨out, pending, ran, lists, releases⟩ := l limit y fresh fits (Nat.le_trans waits le)
  exact ⟨out, pending, ran, lists, fun t mem op may => releases t mem op (Nat.le_trans may le)⟩

/-- A number is listed at once. -/
lemma number {v : Binary64} : Level.primary.Lists [.number v] (.number v) := by
  intro limit y fresh _ _
  refine ⟨[.number v], [], ?_, rfl, by simp⟩
  simp [Yard.run, Yard.step, Yard.number, fresh]

/-- An expression behind a sign is listed, and the sign after it. -/
lemma sign {s : Sign} (l : Level.signed.Lists ts e) :
    Level.signed.Lists (s.written :: ts) (.signed s e) := by
  intro limit y fresh fits _
  have stepped : y.step limit s.written = .ok { y with stack := .sign s :: y.stack } := by
    cases s <;> simp [Sign.written, Yard.step, Yard.operator, fresh, BinaryOp.sign?]
  have fitsOperand : nestingFrom y.openGroups ts ≤ limit := by
    cases s <;> exact fits
  obtain ⟨out, pending, ran, lists, releases⟩ :=
    l limit { y with stack := .sign s :: y.stack } fresh fitsOperand (Nat.le_refl _)
  refine ⟨out, pending ++ [.sign s], ?_, ?_, ?_⟩
  · rw [Yard.run, stepped, List.append_assoc]
    exact ran
  · rw [← List.append_assoc, lists, Expr.postorder]
  · intro t mem
    rcases List.mem_append.mp mem with left | right
    · exact releases t left
    · cases List.mem_singleton.mp right
      exact .sign

/-- A closing bracket lets everything in its group out. -/
lemma group (d : Derives .sum ts e) (l : Level.sum.Lists ts e) :
    Level.primary.Lists (.lparen :: ts ++ [.rparen]) e := by
  intro limit y fresh fits _
  simp only [List.cons_append, nestingFrom, d.nestingFrom_append, Nat.add_sub_cancel] at fits
  have room : ¬ limit < y.openGroups + 1 := by omega
  have fitsGroup : nestingFrom (y.openGroups + 1) ts ≤ limit := by omega
  have stepped : y.step limit .lparen =
      .ok { y with stack := .lparen :: y.stack, openGroups := y.openGroups + 1 } := by
    simp [Yard.step, Yard.openGroup, fresh, room]
  obtain ⟨out, pending, ran, lists, releases⟩ :=
    l limit { y with stack := .lparen :: y.stack, openGroups := y.openGroups + 1 } fresh fitsGroup
      (Nat.le_refl _)
  have leaves : ∀ t ∈ pending, (!t.opensGroup) = true := by
    intro t mem
    rw [(releases t mem).opensGroup_eq_false]
    rfl
  have released := Yard.release_append (.lparen :: y.stack) (out.reverse ++ y.output) (y.openGroups + 1)
    true leaves (by simp [Token.opensGroup])
  refine ⟨e.postorder, [], ?_, List.append_nil _, by simp⟩
  rw [List.cons_append, Yard.run, stepped]
  dsimp only
  rw [Yard.run_append, ran]
  simp [Except.bind, Yard.run, Yard.step, Yard.closeGroup, released, ← lists]

/-- An operator lets its left operand out and waits below what its right operand leaves on the stack. -/
lemma binary (op : BinaryOp) (d : Derives op.leftLevel ts a) (left : op.leftLevel.Lists ts a)
    (right : op.rightLevel.Lists us b) : op.level.Lists (ts ++ .op op :: us) (.binary op a b) := by
  intro limit y fresh fits waits
  simp only [d.nestingFrom_append, nestingFrom] at fits
  have fitsLeft : nestingFrom y.openGroups ts ≤ limit := by omega
  have fitsRight : nestingFrom y.openGroups us ≤ limit := by omega
  obtain ⟨out, pending, ran, lists, releases⟩ :=
    left limit y fresh fitsLeft (Nat.le_trans waits op.level_le_leftLevel)
  have leaves : ∀ t ∈ pending, t.leavesBefore op = true :=
    fun t mem => releases t mem op (Nat.le_refl _)
  have released := Yard.release_append y.stack (out.reverse ++ y.output) y.openGroups true leaves
    ((operandLevel_le_iff op y.stack).mp waits)
  -- the left operand is in the output now, and the operator on top of what was there before
  obtain ⟨outRight, pendingRight, ranRight, listsRight, releasesRight⟩ :=
    right limit ⟨a.postorder.reverse ++ y.output, .op op :: y.stack, y.openGroups, false⟩ rfl fitsRight
      (Nat.le_refl _)
  refine ⟨a.postorder ++ outRight, pendingRight ++ [.op op], ?_, ?_, ?_⟩
  · rw [Yard.run_append, ran]
    simp only [Except.bind, Yard.run, Yard.step, Yard.operator, if_true, released]
    rw [← List.append_assoc, ← List.reverse_append, lists]
    simpa using ranRight
  · rw [Expr.postorder, ← listsRight]
    simp
  · intro t mem
    rcases List.mem_append.mp mem with above | here
    · exact (releasesRight t above).of_right
    · cases List.mem_singleton.mp here
      exact .operator

end Level.Lists

/-- The yard lists every expression that nests within the limit. -/
lemma Derives.lists {L : Level} {ts : List Token} {e : Expr} (d : Derives L ts e) : L.Lists ts e := by
  induction d with
  | number => exact .number
  | group d ih => exact .group d ih
  | base _ ih => exact ih.loosen (by decide)
  | raise left _ ihLeft ihRight => exact .binary .pow left ihLeft ihRight
  | unsigned _ ih => exact ih.loosen (by decide)
  | sign _ ih => exact ih.sign
  | factor _ ih => exact ih.loosen (by decide)
  | multiply joins left _ ihLeft ihRight =>
    rcases joins with rfl | rfl | rfl | rfl
    · exact .binary .mul left ihLeft ihRight
    · exact .binary .div left ihLeft ihRight
    · exact .binary .floorDiv left ihLeft ihRight
    · exact .binary .mod left ihLeft ihRight
  | term _ ih => exact ih.loosen (by decide)
  | join joins left _ ihLeft ihRight =>
    rcases joins with rfl | rfl
    · exact .binary .add left ihLeft ihRight
    · exact .binary .sub left ihLeft ihRight

/-- An expression that nests within the limit is put into postfix order. -/
lemma Derives.toPostorder {limit : Nat} {ts : List Token} {e : Expr} (d : Derives .sum ts e)
    (fits : nesting ts ≤ limit) : toPostorder limit ts = .ok e.postorder := by
  -- no bracket waits on the stack at the end, so that everything goes out
  obtain ⟨out, pending, ran, lists, releases⟩ := d.lists limit .empty rfl fits (Nat.le_refl _)
  have closed : pending.any Token.opensGroup = false := by
    rw [List.any_eq_false]
    intro t mem
    simp [(releases t mem).opensGroup_eq_false]
  rw [Calculator.toPostorder, ran]
  simp only [Yard.finish, Yard.empty, List.append_nil, closed]
  simp [lists]

namespace Yard

variable {limit : Nat} {y next : Yard} {ts : List Token} {t : Token}

/-- A move counts the open brackets as nesting does, and opens none beyond the limit. -/
lemma nestingFrom_of_moves (moved : y.Moves limit t next) (ts : List Token) :
    nestingFrom y.openGroups (t :: ts) = max y.openGroups (nestingFrom next.openGroups ts) ∧
      next.openGroups ≤ max limit y.openGroups := by
  cases moved with
  | openGroup _ room => exact ⟨rfl, Nat.le_trans room (Nat.le_max_left _ _)⟩
  | closeGroup _ _ => exact ⟨rfl, Nat.le_trans (Nat.sub_le _ _) (Nat.le_max_right _ _)⟩
  | _ => exact ⟨(Nat.max_eq_right (le_nestingFrom _ ts)).symm, Nat.le_max_right _ _⟩

/-- Tokens that the yard accepts nest within the limit. -/
lemma nestingFrom_le_of_run (ran : y.run limit ts = .ok next) :
    nestingFrom y.openGroups ts ≤ max limit y.openGroups := by
  induction ts generalizing y with
  | nil => exact Nat.le_max_right _ _
  | cons t ts ih =>
    obtain ⟨mid, moved, ran⟩ := run_cons_eq_ok_iff.mp ran
    obtain ⟨counts, bounded⟩ := nestingFrom_of_moves moved ts
    have rest := ih ran
    omega

end Yard

/-- What is put into postfix order is an expression that nests within the limit. -/
lemma derives_of_toPostorder {limit : Nat} {ts output : List Token}
    (h : toPostorder limit ts = .ok output) :
    nesting ts ≤ limit ∧ ∃ e, Derives .sum ts e ∧ output = e.postorder := by
  obtain ⟨y, ran, finished⟩ := toPostorder_eq_ok_iff.mp h
  have bounded := Yard.nestingFrom_le_of_run ran
  exact ⟨by simpa [Yard.empty, nesting] using bounded, (Yard.reads_empty.run ran).derives_of_finish finished⟩

/-- Tokens write at most one tree. -/
lemma Derives.unique {ts : List Token} {a b : Expr} (da : Derives .sum ts a) (db : Derives .sum ts b) :
    a = b := by
  have listsA := da.toPostorder (Nat.le_refl (nesting ts))
  have listsB := db.toPostorder (Nat.le_refl (nesting ts))
  rw [listsA] at listsB
  exact Expr.postorder_injective (Except.ok.inj listsB)

/-- Tokens are put into postfix order exactly when the grammar derives them and they never open more brackets
at once than the limit; the order is then the postfix listing of the one tree that they write. -/
theorem toPostorder_ok_iff_derives (limit : Nat) (ts : List Token) :
    ((∃ output, toPostorder limit ts = .ok output) ↔
      (∃ e, Derives .sum ts e) ∧ nesting ts ≤ limit) ∧
    ∀ output, toPostorder limit ts = .ok output ↔
      nesting ts ≤ limit ∧ ∃ e, (∀ a, Derives .sum ts a ↔ a = e) ∧ output = e.postorder := by
  have one (e : Expr) (d : Derives .sum ts e) (a : Expr) : Derives .sum ts a ↔ a = e :=
    ⟨fun da => da.unique d, fun same => same ▸ d⟩
  refine ⟨⟨?_, ?_⟩, fun output => ⟨?_, ?_⟩⟩
  · rintro ⟨output, h⟩
    obtain ⟨fits, e, d, -⟩ := derives_of_toPostorder h
    exact ⟨⟨e, d⟩, fits⟩
  · rintro ⟨⟨e, d⟩, fits⟩
    exact ⟨e.postorder, d.toPostorder fits⟩
  · intro h
    obtain ⟨fits, e, d, lists⟩ := derives_of_toPostorder h
    exact ⟨fits, e, one e d, lists⟩
  · rintro ⟨fits, e, only, rfl⟩
    exact ((only e).mpr rfl).toPostorder fits

end Calculator
