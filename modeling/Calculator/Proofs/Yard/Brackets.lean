import Mathlib.Data.List.TakeWhile
import Calculator.Proofs.Yard.Step

/-!
# Open brackets

The yard counts the open brackets apart from the stack on which they wait. `Yard.Counted` says that the count is right:
it is the number of opening brackets on the stack and the number that the tokens read so far leave open. Letting tokens
out changes neither while opening brackets stay (`Yard.Counted.release`), so every move keeps it (`Yard.Counted.moves`).
Main statement: the count is right after every token, so that a bracket that closes has one to close, and the yard
finishes with a bracket left open exactly when the tokens leave one open (`openGroups_counted`).
-/

namespace Calculator

namespace Yard

/-- After the tokens, the number of open brackets is right and within the limit; neither closing brackets nor numbers
wait on the stack, and no bracket is in the output. -/
structure Counted (limit : Nat) (ts : List Token) (y : Yard) : Prop where
  onStack : y.openGroups = y.stack.count .lparen
  leftOpen : y.openGroups + ts.count .rparen = ts.count .lparen
  bounded : y.openGroups ≤ limit
  waiting : ∀ t ∈ y.stack, t ≠ .rparen ∧ ∀ v, t ≠ .number v
  noBracket : ∀ t ∈ y.output, t ≠ .lparen ∧ t ≠ .rparen

variable {limit : Nat} {y next : Yard} {ts us : List Token} {t : Token}

/-- At the beginning no brackets are open. -/
lemma counted_empty (limit : Nat) : empty.Counted limit [] where
  onStack := rfl
  leftOpen := rfl
  bounded := Nat.zero_le limit
  waiting := nofun
  noBracket := nofun

namespace Counted

/-- Tokens that are no opening brackets may leave the stack. -/
lemma release (leaves : Token → Bool) (stays : leaves .lparen = false) (c : y.Counted limit ts) :
    (y.release leaves).Counted limit ts where
  onStack := by
    have noneClosed : (y.stack.takeWhile leaves).count .lparen = 0 := by
      rw [List.count_eq_zero]
      intro mem
      rw [List.mem_takeWhile_imp mem] at stays
      cases stays
    calc y.openGroups = y.stack.count .lparen := c.onStack
      _ = (y.stack.takeWhile leaves ++ y.stack.dropWhile leaves).count .lparen := by
        rw [List.takeWhile_append_dropWhile]
      _ = (y.stack.dropWhile leaves).count .lparen := by rw [List.count_append, noneClosed, Nat.zero_add]
  leftOpen := c.leftOpen
  bounded := c.bounded
  waiting := fun t mem => c.waiting t ((List.dropWhile_sublist leaves).mem mem)
  noBracket := by
    intro t mem
    rcases List.mem_append.mp mem with left | before
    · have left := List.mem_reverse.mp left
      refine ⟨?_, (c.waiting t ((List.takeWhile_sublist leaves).mem left)).1⟩
      rintro rfl
      rw [List.mem_takeWhile_imp left] at stays
      cases stays
    · exact c.noBracket t before

/-- The bracket that a closing bracket finds on the stack is one of those that are counted. -/
lemma openGroups_eq {below : List Token} (c : y.Counted limit ts)
    (found : (y.release (!·.opensGroup)).stack = .lparen :: below) : y.openGroups = below.count .lparen + 1 := by
  have onStack := (c.release (!·.opensGroup) rfl).onStack
  rwa [found, List.count_cons_self] at onStack

/-- An operator is read, and a token that is neither a number nor a bracket waits. -/
lemma wait {op : BinaryOp} (afterValue : Bool) (noNumber : ∀ v, t ≠ .number v) (noBracket : t ≠ .lparen ∧ t ≠ .rparen)
    (c : y.Counted limit ts) :
    Counted limit (ts ++ [.op op]) { y with stack := t :: y.stack, afterValue := afterValue } where
  onStack := by rw [List.count_cons_of_ne noBracket.1, c.onStack]
  leftOpen := by simpa using c.leftOpen
  bounded := c.bounded
  waiting := List.forall_mem_cons.mpr ⟨⟨noBracket.2, noNumber⟩, c.waiting⟩
  noBracket := c.noBracket

/-- Every move keeps the count right. -/
lemma moves (c : y.Counted limit ts) (moved : y.Moves limit t next) : next.Counted limit (ts ++ [t]) := by
  have leftOpen := c.leftOpen
  cases moved with
  | number _ =>
    exact ⟨c.onStack, by simpa using leftOpen, c.bounded, c.waiting,
      List.forall_mem_cons.mpr ⟨by simp, c.noBracket⟩⟩
  | openGroup _ room =>
    refine ⟨?_, ?_, room, List.forall_mem_cons.mpr ⟨by simp, c.waiting⟩, c.noBracket⟩
    · rw [List.count_cons_self, c.onStack]
    · simp only [List.count_append, List.count_singleton_self]
      simp
      omega
  | @closeGroup below _ found =>
    have released := c.release (!·.opensGroup) rfl
    have counted := c.openGroups_eq found
    have waiting := released.waiting
    rw [found] at waiting
    refine ⟨?_, ?_, Nat.le_trans (Nat.sub_le _ _) c.bounded, (List.forall_mem_cons.mp waiting).2, released.noBracket⟩
    · rw [counted, Nat.add_sub_cancel]
    · simp only [List.count_append, List.count_singleton_self]
      simp
      omega
  | @operator op _ =>
    have released := c.release (·.leavesBefore op) rfl
    exact released.wait false (t := .op op) (by simp) (by simp)
  | @sign _ s _ _ => exact c.wait y.afterValue (t := .sign s) (by simp) (by simp)

/-- The count is right after a run. -/
lemma run (c : y.Counted limit ts) (ran : y.run limit us = .ok next) : next.Counted limit (ts ++ us) := by
  induction us generalizing y ts with
  | nil =>
    cases ran
    rwa [List.append_nil]
  | cons u us ih =>
    obtain ⟨mid, moved, ran⟩ := run_cons_eq_ok_iff.mp ran
    have counted := ih (c.moves moved) ran
    rwa [List.append_assoc] at counted

/-- An opening bracket is on the stack when one is left open. -/
lemma any_opensGroup_iff (c : y.Counted limit ts) : y.stack.any Token.opensGroup = true ↔ 0 < y.openGroups := by
  rw [c.onStack, List.count_pos_iff, List.any_eq_true]
  constructor
  · rintro ⟨t, mem, opens⟩
    cases t with
    | lparen => exact mem
    | _ => cases opens
  · exact fun mem => ⟨.lparen, mem, rfl⟩

/-- A closing bracket finds none to close when no bracket is open. -/
lemma step_rparen_eq_error_iff (c : y.Counted limit ts) :
    y.step limit .rparen = .error .closeWithoutOpen ↔ y.afterValue = true ∧ y.openGroups = 0 := by
  have onStack := (c.release (!·.opensGroup) rfl).onStack
  simp only [step, Yard.closeGroup]
  split
  · rename_i value
    split
    · rename_i found
      rw [found] at onStack
      exact iff_of_true rfl ⟨value, onStack⟩
    · rename_i top below found
      rw [eq_lparen_of_release found] at found
      have counted := c.openGroups_eq found
      refine iff_of_false ?_ ?_
      · rintro ⟨⟩
      · rintro ⟨-, noBracket⟩
        omega
  · rename_i fresh
    refine iff_of_false ?_ ?_
    · rintro ⟨⟩
    · rintro ⟨value, -⟩
      exact fresh value

/-- A closing bracket that is taken closes one of those that are counted. -/
lemma openGroups_of_step_rparen (c : y.Counted limit ts) (stepped : y.step limit .rparen = .ok next) :
    next.openGroups + 1 = y.openGroups := by
  cases step_eq_ok_iff.mp stepped with
  | closeGroup _ found =>
    have counted := c.openGroups_eq found
    simp only
    omega

/-- At the end a group is unclosed exactly when fewer brackets have been closed than opened. -/
lemma finish_eq_unclosedGroup_iff (c : y.Counted limit ts) :
    y.finish = .error .unclosedGroup ↔ y.afterValue = true ∧ ts.count .rparen < ts.count .lparen := by
  have leftOpen := c.leftOpen
  have opened : y.stack.any Token.opensGroup = true ↔ ts.count .rparen < ts.count .lparen := by
    rw [c.any_opensGroup_iff]
    omega
  unfold finish
  split
  · rename_i value
    rw [← opened]
    split
    · rename_i opens
      exact iff_of_true rfl ⟨value, opens⟩
    · rename_i closed
      exact iff_of_false nofun fun ⟨_, opens⟩ => closed opens
  · rename_i fresh
    exact iff_of_false nofun fun ⟨value, _⟩ => fresh value

/-- What waits at the end is no bracket either when the yard finishes. -/
lemma noBracket_of_finish {output : List Token} (c : y.Counted limit ts) (finished : y.finish = .ok output) :
    ∀ t ∈ output, t ≠ .lparen ∧ t ≠ .rparen := by
  unfold finish at finished
  split at finished
  · split at finished
    · cases finished
    · rename_i closed
      cases finished
      intro t mem
      rcases List.mem_append.mp mem with before | waits
      · exact c.noBracket t (List.mem_reverse.mp before)
      · refine ⟨?_, (c.waiting t waits).1⟩
        rintro rfl
        exact closed (List.any_eq_true.mpr ⟨.lparen, waits, rfl⟩)
  · cases finished

end Counted

end Yard

/-- After each of the tokens that the yard takes, the number of open brackets is that of the opening brackets on the
stack, and within the limit; no closing bracket and no number waits there, and no bracket is in the output. A closing
bracket that is taken closes one of those that are counted, and is refused for having none to close where none is
counted; the end of the tokens finds a bracket left open exactly when they open more brackets than they close. -/
theorem openGroups_counted (limit : Nat) (ts : List Token) :
    (∀ front y, front <+: ts → Yard.empty.run limit front = .ok y →
      y.Counted limit front ∧
        (y.step limit .rparen = .error .closeWithoutOpen ↔ y.afterValue = true ∧ y.openGroups = 0) ∧
        ∀ next, y.step limit .rparen = .ok next → next.openGroups + 1 = y.openGroups) ∧
    (∀ y, Yard.empty.run limit ts = .ok y →
      (y.finish = .error .unclosedGroup ↔ y.afterValue = true ∧ ts.count .rparen < ts.count .lparen)) ∧
    ∀ output, toPostorder limit ts = .ok output → ∀ t ∈ output, t ≠ .lparen ∧ t ≠ .rparen := by
  refine ⟨fun front y _ ran => ?_, fun y ran => ?_, fun output ordered => ?_⟩
  · have counted := (Yard.counted_empty limit).run ran
    exact ⟨counted, counted.step_rparen_eq_error_iff, fun next => counted.openGroups_of_step_rparen⟩
  · exact ((Yard.counted_empty limit).run ran).finish_eq_unclosedGroup_iff
  · obtain ⟨y, ran, finished⟩ := toPostorder_eq_ok_iff.mp ordered
    exact ((Yard.counted_empty limit).run ran).noBracket_of_finish finished

/-- Of two brackets that are open before a one, the first that closes leaves the other, and the end finds it open. -/
theorem openGroups_counted_of_two_open :
    let one := Token.number .one
    ∃ y next, Yard.empty.run 2 [.lparen, .lparen, one] = .ok y ∧ y.Counted 2 [.lparen, .lparen, one] ∧
      y.openGroups = 2 ∧ y.step 2 .rparen = .ok next ∧ next.openGroups + 1 = y.openGroups ∧
      next.finish = .error .unclosedGroup ∧
      toPostorder 1 [.lparen, one, .rparen] = .ok [one] ∧ ∀ t ∈ [one], t ≠ .lparen ∧ t ≠ .rparen := by
  intro one
  obtain ⟨counts, finds, -⟩ := openGroups_counted 2 [.lparen, .lparen, one, .rparen]
  obtain ⟨-, -, lists⟩ := openGroups_counted 1 [.lparen, one, .rparen]
  obtain ⟨counted, -, closes⟩ :=
    counts [.lparen, .lparen, one] ⟨[one], [.lparen, .lparen], 2, true⟩ ⟨[.rparen], rfl⟩ rfl
  exact ⟨_, ⟨[one], [.lparen], 1, true⟩, rfl, counted, rfl, rfl, closes _ rfl,
    (finds _ rfl).mpr ⟨rfl, by decide⟩, rfl, lists _ rfl⟩

end Calculator
