import Calculator.Proofs.Course

/-!
# The first faulty operation

The nodes of an expression are reached by paths from its root, and `Expr.paths` lists them in postfix order. The first
node in this order whose operation is faulty at the values of its operands ends the evaluation (`FirstFault.eval_eq`),
so what lies after it is not evaluated (`FirstFault.eval_replace`). The order is that of `Before`, which compares two
paths where they part (`Expr.precedes_iff`). Main statement: `eval_reports_first_fault`.
-/

namespace Calculator

/-! ## Nodes -/

/-- A turn from a node to one of its operands. -/
inductive Turn where
  | left
  | right
  | operand
deriving DecidableEq

/-- The turns from the root of an expression down to one of its nodes. -/
abbrev Path := List Turn

namespace Expr

/-- The paths to all nodes in postfix order: the operands from left to right, then the root. -/
def paths : Expr → List Path
  | number _ => [[]]
  | binary _ a b => a.paths.map (.left :: ·) ++ b.paths.map (.right :: ·) ++ [[]]
  | signed _ x => x.paths.map (.operand :: ·) ++ [[]]

/-- The part of an expression to which a path leads. -/
def part? : Expr → Path → Option Expr
  | e, [] => some e
  | binary _ a _, .left :: p => a.part? p
  | binary _ _ b, .right :: p => b.part? p
  | signed _ x, .operand :: p => x.part? p
  | _, _ => none

/-- The expression with another one in place of the part to which a path leads. -/
def replace : Expr → Path → Expr → Expr
  | _, [], new => new
  | binary op a b, .left :: p, new => binary op (a.replace p new) b
  | binary op a b, .right :: p, new => binary op a (b.replace p new)
  | signed s x, .operand :: p, new => signed s (x.replace p new)
  | e, _, _ => e

/-- The node at the end of one path comes before that of the other in postfix order. -/
def Precedes (e : Expr) (p q : Path) : Prop :=
  ∃ front back, e.paths = front ++ p :: back ∧ q ∈ back

/-- The whole part at the end of the second path comes after the node at the end of the first. -/
def LiesAfter (e : Expr) (p q : Path) : Prop :=
  q ∈ e.paths ∧ ∀ r ∈ e.paths, q <+: r → e.Precedes p r

/-- The path leads to an operation whose operands have the given values, and which is faulty at them. -/
def FaultAt (e : Expr) (p : Path) (op : BinaryOp) (v w : Binary64) : Prop :=
  ∃ a b, e.part? p = some (.binary op a b) ∧ a.eval.outcome = .ok v ∧ b.eval.outcome = .ok w ∧ op.Faulty v w

/-- The path leads to a faulty operation. -/
def FaultyAt (e : Expr) (p : Path) : Prop :=
  ∃ op v w, e.FaultAt p op v w

/-- The path leads to a faulty operation, and no node before it is one. -/
def FirstFault (e : Expr) (p : Path) (op : BinaryOp) (v w : Binary64) : Prop :=
  e.FaultAt p op v w ∧ ∀ q, e.Precedes q p → ¬ e.FaultyAt q

end Expr

/-! ## The order of nodes -/

/-- The node at the end of one path is inside the other, or to its left where the paths part. -/
inductive Before : Path → Path → Prop where
  | inside {t p} :
    Before (t :: p) []
  | beside {p q} :
    Before (.left :: p) (.right :: q)
  | deeper {t p q} :
    Before p q →
    Before (t :: p) (t :: q)

/-- Of two nodes only one comes before the other. -/
lemma Before.asymm {p q : Path} (before : Before p q) : ¬ Before q p := by
  induction before with
  | inside => nofun
  | beside => nofun
  | deeper _ ih =>
    rintro ⟨⟩
    exact ih ‹_›

/-- Behind a common turn the order of two nodes is that of the rest of their paths. -/
lemma Before.of_cons {t : Turn} {p q : Path} (before : Before (t :: p) (t :: q)) : Before p q := by
  cases before
  assumption

namespace Expr

variable {e a b x : Expr} {op o : BinaryOp} {s : Sign} {p q : Path} {v w : Binary64}

/-- No turn leads on from a number. -/
lemma part?_number (v : Binary64) (t : Turn) (p : Path) : (number v).part? (t :: p) = none := by
  cases t <;> rfl

/-- The paths to the nodes are listed in their order. -/
lemma pairwise_paths (e : Expr) : e.paths.Pairwise Before := by
  induction e with
  | number v => exact List.pairwise_singleton _ _
  | signed s x ih =>
    refine List.pairwise_append.mpr ⟨List.pairwise_map.mpr (ih.imp .deeper), List.pairwise_singleton _ _, ?_⟩
    simp only [List.mem_map, List.mem_singleton]
    rintro _ ⟨p, -, rfl⟩ _ rfl
    exact .inside
  | binary op a b left right =>
    have operands : (a.paths.map (.left :: ·) ++ b.paths.map (.right :: ·)).Pairwise Before := by
      refine List.pairwise_append.mpr
        ⟨List.pairwise_map.mpr (left.imp .deeper), List.pairwise_map.mpr (right.imp .deeper), ?_⟩
      simp only [List.mem_map]
      rintro _ ⟨p, -, rfl⟩ _ ⟨q, -, rfl⟩
      exact .beside
    refine List.pairwise_append.mpr ⟨operands, List.pairwise_singleton _ _, ?_⟩
    simp only [List.mem_append, List.mem_map, List.mem_singleton]
    rintro _ (⟨p, -, rfl⟩ | ⟨p, -, rfl⟩) _ rfl
    · exact .inside
    · exact .inside

/-- The postfix order of the nodes is that of their paths. -/
lemma precedes_iff : e.Precedes p q ↔ p ∈ e.paths ∧ q ∈ e.paths ∧ Before p q := by
  have ordered := e.pairwise_paths
  constructor
  · rintro ⟨front, back, split, mem⟩
    rw [split] at ordered ⊢
    have before := (List.pairwise_cons.mp (List.pairwise_append.mp ordered).2.1).1 q mem
    exact ⟨by simp, by simp [mem], before⟩
  · rintro ⟨memP, memQ, before⟩
    obtain ⟨front, back, split⟩ := List.append_of_mem memP
    refine ⟨front, back, split, ?_⟩
    rw [split] at ordered memQ
    rcases List.mem_append.mp memQ with inFront | memQ
    · have after := (List.pairwise_append.mp ordered).2.2 q inFront p List.mem_cons_self
      exact absurd after before.asymm
    · rcases List.mem_cons.mp memQ with rfl | inBack
      · exact absurd before before.asymm
      · exact inBack

/-- The nodes behind a sign are those of its operand. -/
lemma mem_paths_operand : .operand :: p ∈ (signed s x).paths ↔ p ∈ x.paths := by
  simp [paths]

/-- The nodes to the left of an operation are those of its left operand. -/
lemma mem_paths_left : .left :: p ∈ (binary op a b).paths ↔ p ∈ a.paths := by
  simp [paths]

/-- The nodes to the right of an operation are those of its right operand. -/
lemma mem_paths_right : .right :: p ∈ (binary op a b).paths ↔ p ∈ b.paths := by
  simp [paths]

/-- A path that leads to a part is listed. -/
lemma mem_paths_of_part? (leads : e.part? p = some x) : p ∈ e.paths := by
  induction e generalizing p with
  | number v =>
    cases p with
    | nil => exact List.mem_singleton_self _
    | cons t p =>
      rw [part?_number] at leads
      cases leads
  | signed s y ih =>
    cases p with
    | nil => exact List.mem_append_right _ (List.mem_singleton_self _)
    | cons t p =>
      cases t with
      | operand => exact mem_paths_operand.mpr (ih leads)
      | _ => cases leads
  | binary op a b left right =>
    cases p with
    | nil => exact List.mem_append_right _ (List.mem_singleton_self _)
    | cons t p =>
      cases t with
      | left => exact mem_paths_left.mpr (left leads)
      | right => exact mem_paths_right.mpr (right leads)
      | operand => cases leads

/-- A faulty operation is one of the nodes. -/
lemma FaultyAt.mem_paths (faulty : e.FaultyAt p) : p ∈ e.paths := by
  obtain ⟨op, v, w, a, b, leads, -⟩ := faulty
  exact mem_paths_of_part? leads

/-- No operation before the first faulty one is faulty. -/
lemma firstFault_iff : e.FirstFault p op v w ↔ e.FaultAt p op v w ∧ ∀ q, Before q p → ¬ e.FaultyAt q := by
  refine and_congr_right fun fault => forall_congr' fun q => ?_
  have memP : p ∈ e.paths := FaultyAt.mem_paths ⟨op, v, w, fault⟩
  rw [precedes_iff]
  exact ⟨fun sound before faulty => sound ⟨faulty.mem_paths, memP, before⟩ faulty,
    fun sound precedes => sound precedes.2.2⟩

/-! ## Evaluation up to the first fault -/

/-- A number has no faulty operation. -/
lemma not_faultyAt_number {n : Binary64} : ¬ (number n).FaultyAt p := by
  rintro ⟨op, v, w, a, b, leads, -⟩
  cases p with
  | nil => cases leads
  | cons t p =>
    rw [part?_number] at leads
    cases leads

/-- A sign before an expression in which no operation is faulty makes none faulty. -/
lemma not_faultyAt_signed {s : Sign} {x : Expr} (sound : ∀ p, ¬ x.FaultyAt p) : ¬ (signed s x).FaultyAt p := by
  rintro ⟨op, v, w, a, b, leads, faulty⟩
  match p with
  | [] => cases leads
  | .operand :: p => exact sound p ⟨op, v, w, a, b, leads, faulty⟩
  | .left :: _ => cases leads
  | .right :: _ => cases leads

/-- In an expression that has a value no operation is faulty. -/
lemma Evaluates.not_faultyAt (value : e.Evaluates v) : ¬ e.FaultyAt p := by
  induction value generalizing p with
  | number => exact not_faultyAt_number
  | plus _ ih => exact not_faultyAt_signed fun p => ih
  | minus _ ih => exact not_faultyAt_signed fun p => ih
  | binary left right sound _ ihLeft ihRight =>
    rintro ⟨op, v, w, a, b, leads, evalLeft, evalRight, faulty⟩
    match p with
    | [] =>
      cases leads
      rw [left.eval] at evalLeft
      rw [right.eval] at evalRight
      cases evalLeft
      cases evalRight
      exact sound faulty
    | .left :: p => exact ihLeft ⟨op, v, w, a, b, leads, evalLeft, evalRight, faulty⟩
    | .right :: p => exact ihRight ⟨op, v, w, a, b, leads, evalLeft, evalRight, faulty⟩
    | .operand :: _ => cases leads

/-- An expression that faults has a first faulty operation. -/
lemma Faults.exists_firstFault (faults : e.Faults) : ∃ p op v w, e.FirstFault p op v w := by
  simp only [firstFault_iff]
  induction faults with
  | signed _ ih =>
    obtain ⟨p, op, v, w, fault, first⟩ := ih
    refine ⟨.operand :: p, op, v, w, fault, ?_⟩
    rintro _ ⟨⟩
    exact first _ ‹_›
  | left _ ih =>
    obtain ⟨p, op, v, w, fault, first⟩ := ih
    refine ⟨.left :: p, op, v, w, fault, ?_⟩
    rintro _ ⟨⟩
    exact first _ ‹_›
  | right left _ ih =>
    obtain ⟨p, op, v, w, fault, first⟩ := ih
    refine ⟨.right :: p, op, v, w, fault, ?_⟩
    rintro _ (_ | _ | before)
    · exact left.not_faultyAt
    · exact first _ before
  | here left right faulty =>
    refine ⟨[], _, _, _, ⟨_, _, rfl, left.eval, right.eval, faulty⟩, ?_⟩
    rintro _ ⟨⟩
    rename_i t p
    match t with
    | .left => exact left.not_faultyAt
    | .right => exact right.not_faultyAt
    | .operand =>
      rintro ⟨op, v, w, a, b, leads, -⟩
      cases leads

/-- An expression faults exactly when one of its operations is faulty. -/
lemma exists_faultyAt_iff : (∃ p, e.FaultyAt p) ↔ e.Faults := by
  constructor
  · rintro ⟨p, faulty⟩
    rcases e.evaluates_or_faults with ⟨v, value⟩ | faults
    · exact absurd faulty value.not_faultyAt
    · exact faults
  · intro faults
    obtain ⟨p, op, v, w, fault, -⟩ := faults.exists_firstFault
    exact ⟨p, op, v, w, fault⟩

namespace FirstFault

/-- The first fault of a signed expression is that of its operand. -/
lemma of_signed (first : (signed s x).FirstFault p op v w) :
    ∃ q, p = .operand :: q ∧ x.FirstFault q op v w := by
  obtain ⟨⟨a, b, leads, fault⟩, least⟩ := firstFault_iff.mp first
  match p with
  | .operand :: q =>
    exact ⟨q, rfl, firstFault_iff.mpr ⟨⟨a, b, leads, fault⟩, fun r before => least (.operand :: r) (.deeper before)⟩⟩
  | [] => cases leads
  | .left :: _ => cases leads
  | .right :: _ => cases leads

/-- The first fault of an operation is at its root when both operands have values, in its left operand, or in its
right one when the left has a value. -/
lemma of_binary (first : (binary o a b).FirstFault p op v w) :
    (p = [] ∧ o = op ∧ a.Evaluates v ∧ b.Evaluates w ∧ op.Faulty v w) ∨
      (∃ q, p = .left :: q ∧ a.FirstFault q op v w) ∨
      ∃ q u, p = .right :: q ∧ a.Evaluates u ∧ b.FirstFault q op v w := by
  obtain ⟨⟨c, d, leads, fault⟩, least⟩ := firstFault_iff.mp first
  match p with
  | [] =>
    obtain ⟨left, right, faulty⟩ := fault
    cases leads
    exact .inl ⟨rfl, rfl, eval_eq_ok_iff.mp left, eval_eq_ok_iff.mp right, faulty⟩
  | .left :: q =>
    have inside : a.FirstFault q op v w :=
      firstFault_iff.mpr ⟨⟨c, d, leads, fault⟩, fun r before => least (.left :: r) (.deeper before)⟩
    exact .inr (.inl ⟨q, rfl, inside⟩)
  | .right :: q =>
    have inside : b.FirstFault q op v w :=
      firstFault_iff.mpr ⟨⟨c, d, leads, fault⟩, fun r before => least (.right :: r) (.deeper before)⟩
    rcases a.evaluates_or_faults with ⟨u, left⟩ | faults
    · exact .inr (.inr ⟨q, u, rfl, left, inside⟩)
    · obtain ⟨r, faulty⟩ := exists_faultyAt_iff.mpr faults
      exact absurd faulty (least (.left :: r) .beside)
  | .operand :: _ => cases leads

/-- Evaluation ends with the report of the first faulty operation. -/
lemma eval_eq (first : e.FirstFault p op v w) :
    ∃ event : Event, event.Reports op v w ∧ e.eval = .fail event .divisionByZero := by
  induction e generalizing p with
  | number n => exact absurd ⟨op, v, w, first.1⟩ not_faultyAt_number
  | signed s x ih =>
    obtain ⟨q, rfl, inside⟩ := first.of_signed
    obtain ⟨event, reports, same⟩ := ih inside
    exact ⟨event, reports, by rw [Expr.eval, same, Logged.fail_bind]⟩
  | binary o a b ihLeft ihRight =>
    obtain ⟨rfl, rfl, left, right, faulty⟩ | ⟨q, rfl, inside⟩ | ⟨q, u, rfl, left, inside⟩ := first.of_binary
    · obtain ⟨event, fault⟩ := Option.isSome_iff_exists.mp ((o.fault?_isSome_iff v w).mpr faulty)
      refine ⟨event, BinaryOp.reports_of_fault? fault, ?_⟩
      rw [eval_binary left.eval_eq right.eval_eq, BinaryOp.run, fault]
    · obtain ⟨event, reports, same⟩ := ihLeft inside
      exact ⟨event, reports, by rw [Expr.eval, same, Logged.fail_bind]⟩
    · obtain ⟨event, reports, same⟩ := ihRight inside
      exact ⟨event, reports, by rw [Expr.eval, left.eval_eq, Logged.pure_bind, same, Logged.fail_bind]⟩

end FirstFault

/-! ## What lies after the first fault -/

/-- A part comes after a node when each of its nodes does. -/
lemma liesAfter_iff : e.LiesAfter p q ↔
    p ∈ e.paths ∧ q ∈ e.paths ∧ ∀ r ∈ e.paths, q <+: r → Before p r := by
  constructor
  · rintro ⟨mem, after⟩
    exact ⟨(precedes_iff.mp (after q mem List.prefix_rfl)).1, mem,
      fun r memR inside => (precedes_iff.mp (after r memR inside)).2.2⟩
  · rintro ⟨memP, memQ, after⟩
    exact ⟨memQ, fun r memR inside => precedes_iff.mpr ⟨memP, memR, after r memR inside⟩⟩

namespace LiesAfter

/-- A part that comes after a node comes after it as a node, too. -/
lemma before (after : e.LiesAfter p q) : Before p q := by
  obtain ⟨-, memQ, after⟩ := liesAfter_iff.mp after
  exact after q memQ List.prefix_rfl

/-- A part that holds a node does not lie after it. -/
lemma ne_nil (after : e.LiesAfter p q) : q ≠ [] := by
  rintro rfl
  obtain ⟨memP, -, after⟩ := liesAfter_iff.mp after
  have before := after p memP List.nil_prefix
  exact before.asymm before

/-- Of two nodes of one operand, one lies after the other in the whole only if it does in the operand. -/
lemma of_cons {t : Turn} (listed : ∀ r, t :: r ∈ e.paths ↔ r ∈ x.paths) (after : e.LiesAfter (t :: p) (t :: q)) :
    x.LiesAfter p q := by
  obtain ⟨memP, memQ, after⟩ := liesAfter_iff.mp after
  refine liesAfter_iff.mpr ⟨(listed p).mp memP, (listed q).mp memQ, fun r memR inside => ?_⟩
  exact (after (t :: r) ((listed r).mpr memR) ((List.prefix_cons_inj t).mpr inside)).of_cons

/-- What comes after a node behind a sign is behind that sign, and comes after it there. -/
lemma of_operand (after : (signed s x).LiesAfter (.operand :: p) q) :
    ∃ r, q = .operand :: r ∧ x.LiesAfter p r := by
  have before := after.before
  have notRoot := after.ne_nil
  cases before with
  | inside => exact absurd rfl notRoot
  | deeper => exact ⟨_, rfl, after.of_cons fun r => mem_paths_operand⟩

/-- What comes after a node of the left operand comes after it there, or belongs to the right operand. -/
lemma of_left (after : (binary o a b).LiesAfter (.left :: p) q) :
    (∃ r, q = .left :: r ∧ a.LiesAfter p r) ∨ ∃ r, q = .right :: r := by
  have before := after.before
  have notRoot := after.ne_nil
  cases before with
  | inside => exact absurd rfl notRoot
  | deeper => exact .inl ⟨_, rfl, after.of_cons fun r => mem_paths_left⟩
  | beside => exact .inr ⟨_, rfl⟩

/-- What comes after a node of the right operand comes after it there. -/
lemma of_right (after : (binary o a b).LiesAfter (.right :: p) q) :
    ∃ r, q = .right :: r ∧ b.LiesAfter p r := by
  have before := after.before
  have notRoot := after.ne_nil
  cases before with
  | inside => exact absurd rfl notRoot
  | deeper => exact ⟨_, rfl, after.of_cons fun r => mem_paths_right⟩

end LiesAfter

/-- What lies after the first faulty operation is not evaluated. -/
lemma FirstFault.eval_replace (first : e.FirstFault p op v w) (after : e.LiesAfter p q) (new : Expr) :
    (e.replace q new).eval = e.eval := by
  induction e generalizing p q with
  | number n => exact absurd ⟨op, v, w, first.1⟩ not_faultyAt_number
  | signed s x ih =>
    obtain ⟨p, rfl, inside⟩ := first.of_signed
    obtain ⟨q, rfl, behind⟩ := after.of_operand
    rw [replace, eval, ih inside behind, eval]
  | binary o a b ihLeft ihRight =>
    obtain ⟨rfl, -⟩ | ⟨p, rfl, inside⟩ | ⟨p, u, rfl, -, inside⟩ := first.of_binary
    · cases after.before
    · obtain ⟨q, rfl, behind⟩ | ⟨q, rfl⟩ := after.of_left
      · rw [replace, eval, ihLeft inside behind, eval]
      · obtain ⟨event, -, same⟩ := inside.eval_eq
        rw [replace, eval, eval, same, Logged.fail_bind, Logged.fail_bind]
    · obtain ⟨q, rfl, behind⟩ := after.of_right
      rw [replace, eval, ihRight inside behind, eval]

end Expr

/-- An expression fails, always with a division by zero, just when some operation in it is faulty. The first of these
in postfix order is then reported, and nothing else; another expression in place of a part that lies wholly after it
changes neither the outcome nor the report. -/
theorem eval_reports_first_fault (e : Expr) :
    (∀ err, e.eval.outcome = .error err ↔ err = .divisionByZero ∧ ∃ p, e.FaultyAt p) ∧
      ((∃ p, e.FaultyAt p) → ∃ p op v w, e.FirstFault p op v w) ∧
      ((¬ ∃ p, e.FaultyAt p) → e.eval.events = []) ∧
      ∀ p op v w, e.FirstFault p op v w →
        ∃ event : Event, event.Reports op v w ∧ e.eval = ⟨[event], .error .divisionByZero⟩ ∧
          ∀ q, e.LiesAfter p q → ∀ new, (e.replace q new).eval = e.eval := by
  rw [Expr.exists_faultyAt_iff]
  refine ⟨fun err => Expr.eval_eq_error_iff, Expr.Faults.exists_firstFault, fun sound => ?_, ?_⟩
  · rcases e.evaluates_or_faults with ⟨v, value⟩ | faults
    · rw [value.eval_eq]
      rfl
    · exact absurd faults sound
  · intro p op v w first
    obtain ⟨event, reports, same⟩ := first.eval_eq
    exact ⟨event, reports, same, fun q after new => first.eval_replace after new⟩

/-- Of a quotient by negative zero and a zero to an infinite negative power, the quotient is reported, and a number in
place of the power changes nothing. -/
theorem eval_reports_first_fault_of_quotient :
    (Expr.binary .add (.binary .div (.number .nan) (.number (.zero .minus)))
        (.binary .pow (.number (.zero .plus)) (.number (.infinite .minus)))).eval =
      ⟨[.zeroDivisor .nan .div], .error .divisionByZero⟩ ∧
    (Expr.binary .add (.binary .div (.number .nan) (.number (.zero .minus))) (.number .nan)).eval =
      ⟨[.zeroDivisor .nan .div], .error .divisionByZero⟩ := by
  generalize whole : Expr.binary .add (.binary .div (.number .nan) (.number (.zero .minus)))
    (.binary .pow (.number (.zero .plus)) (.number (.infinite .minus))) = e
  have first : e.FirstFault [.left] .div .nan (.zero .minus) := by
    subst whole
    refine Expr.firstFault_iff.mpr ⟨⟨_, _, rfl, rfl, rfl, .inl ⟨.inl rfl, .inr rfl⟩⟩, ?_⟩
    rintro _ (_ | _ | inside)
    cases inside with
    | @inside t p =>
      match t with
      | .left => exact Expr.not_faultyAt_number (p := p) (n := .nan)
      | .right => exact Expr.not_faultyAt_number (p := p) (n := .zero .minus)
      | .operand =>
        rintro ⟨op, v, w, a, b, leads, -⟩
        cases leads
  have after : e.LiesAfter [.left] [.right] := by
    subst whole
    refine Expr.liesAfter_iff.mpr ⟨by decide, by decide, ?_⟩
    rintro _ - ⟨r, rfl⟩
    exact .beside
  obtain ⟨event, reports, same, unchanged⟩ := (eval_reports_first_fault e).2.2.2 _ _ _ _ first
  have replaced := unchanged _ after (.number .nan)
  subst whole
  cases reports with
  | zeroDivisor => exact ⟨same, replaced.trans same⟩

end Calculator
