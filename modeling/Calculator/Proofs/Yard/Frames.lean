import Mathlib.Data.List.TakeWhile
import Calculator.Proofs.Levels
import Calculator.Proofs.Yard.Step

/-!
# What the yard accepts is derived

The stack of the yard is a chain of open frames: a bracket waits for a sum, a sign for a signed term, an
operator for its right operand, its left operand being complete in the output. `Frames` says what tokens have
been read when a stack and an output are reached. Whether a value has just ended or not, the yard keeps that
reading (`Yard.Reads`); what leaves the stack closes frames around the last operand and makes it a larger one
(`Operand.release`). Main statement: a run that finishes has read an expression, and its output lists that
expression in postfix order (`Yard.Reads.derives_of_finish`).
-/

namespace Calculator

/-- The level of the operand that the top of the stack waits for. -/
def operandLevel : List Token → Level
  | .op op :: _ => op.rightLevel
  | .sign _ :: _ => .signed
  | _ => .sum

/-- An operand is never required to bind more tightly than a signed expression. -/
lemma operandLevel_le_signed (stack : List Token) :
    (operandLevel stack).strength ≤ Level.signed.strength := by
  cases stack with
  | nil => decide
  | cons t below =>
    cases t with
    | op o => cases o <;> simp [operandLevel, BinaryOp.rightLevel, Level.strength]
    | _ => simp [operandLevel, Level.strength]

/-- An operator may stand after an operand of a stack exactly when the top of the stack does not leave before
it. -/
lemma operandLevel_le_iff (op : BinaryOp) (stack : List Token) :
    (operandLevel stack).strength ≤ op.level.strength ↔
      ∀ t ∈ stack.head?, t.leavesBefore op = false := by
  cases stack with
  | nil => cases op <;> simp [operandLevel, Level.strength, BinaryOp.level]
  | cons t below =>
    simp only [List.head?_cons, Option.mem_some_iff, forall_eq', ← Bool.not_eq_true,
      Token.leavesBefore_iff]
    cases t with
    | op o => cases op <;> cases o <;> simp only [operandLevel] <;> decide
    | _ =>
      cases op <;>
        simp [operandLevel, Token.strength, BinaryOp.level, BinaryOp.leftLevel, Level.strength]

/-- After the tokens have been read, the stack is a chain of open frames, and the output lists their complete
left operands. -/
inductive Frames : List Token → List Token → List Token → Prop where
  | start :
    Frames [] [] []
  | group {ts stack output} :
    Frames ts stack output →
    Frames (ts ++ [.lparen]) (.lparen :: stack) output
  | sign {ts stack output s} :
    Frames ts stack output →
    Frames (ts ++ [s.written]) (.sign s :: stack) output
  | operator {ts us stack output a} {op : BinaryOp} :
    Frames ts stack output →
    Derives op.leftLevel us a →
    (operandLevel stack).strength ≤ op.level.strength →
    Frames (ts ++ (us ++ [.op op])) (.op op :: stack) (output ++ a.postorder)

/-- What waits on the stack is an opening bracket or binds. -/
lemma Frames.strength_pos {ts stack output : List Token} (f : Frames ts stack output) :
    ∀ t ∈ stack, t.opensGroup = false → 1 ≤ t.strength := by
  induction f with
  | start => simp
  | group _ ih => simpa [Token.opensGroup] using ih
  | sign _ ih => simpa [Token.strength] using ih
  | @operator _ _ _ _ _ op _ _ _ ih =>
    intro t mem closed
    rcases List.mem_cons.mp mem with rfl | below
    · cases op <;> decide
    · exact ih t below closed

/-- After the tokens have been read, an operand of the given level is complete and ends the output, and frames
are open before it. -/
def Operand (L : Level) (ts stack output : List Token) : Prop :=
  ∃ us vs before e, Frames us stack before ∧ Derives L vs e ∧
    ts = us ++ vs ∧ output = before ++ e.postorder

namespace Operand

variable {L : Level} {ts stack output : List Token} {t : Token}

/-- A complete operand closes the frame on top of the stack, unless that is a bracket. -/
lemma close (o : Operand L ts (t :: stack) output)
    (fits : (operandLevel (t :: stack)).strength ≤ L.strength) (binds : 1 ≤ t.strength) :
    ∃ K, Operand K ts stack (output ++ [t]) ∧ K.strength = t.strength ∧
      (operandLevel stack).strength ≤ K.strength := by
  obtain ⟨us, vs, before, e, frames, derives, rfl, rfl⟩ := o
  cases frames with
  | group => exact absurd binds (by decide)
  | @sign us _ _ s frames =>
    refine ⟨.signed, ⟨us, s.written :: vs, before, .signed s e, frames, ?_, ?_, ?_⟩, rfl, ?_⟩
    · exact .sign (derives.loosen fits)
    · simp
    · simp [Expr.postorder]
    · exact operandLevel_le_signed stack
  | @operator us ws _ before a op frames left loose =>
    refine ⟨op.level, ⟨us, ws ++ .op op :: vs, before, .binary op a e, frames, ?_, ?_, ?_⟩, ?_, loose⟩
    · exact .binary left (derives.loosen fits)
    · simp
    · simp [Expr.postorder]
    · exact op.strength_level

/-- Tokens that leave the stack, all at least as strong as a bound, close their frames around the operand,
which stays as strong as the bound and fits what is below. -/
lemma release {bound : Nat} (leaves : Token → Bool) (pos : 1 ≤ bound) (o : Operand L ts stack output)
    (strong : ∀ t ∈ stack, leaves t = true → bound ≤ t.strength)
    (fits : (operandLevel stack).strength ≤ L.strength) (tight : bound ≤ L.strength) :
    ∃ K, Operand K ts (stack.dropWhile leaves) (output ++ stack.takeWhile leaves) ∧
      bound ≤ K.strength ∧ (operandLevel (stack.dropWhile leaves)).strength ≤ K.strength := by
  -- each frame that closes leaves a larger operand, of another level, to the frames below
  induction stack generalizing L output with
  | nil => exact ⟨L, by simpa using o, tight, fits⟩
  | cons t below ih =>
    by_cases goes : leaves t = true
    · have binds := strong t List.mem_cons_self goes
      obtain ⟨K, closed, same, fitsBelow⟩ := o.close fits (Nat.le_trans pos binds)
      obtain ⟨M, released, tightM, fitsM⟩ := ih closed
        (fun u mem => strong u (List.mem_cons_of_mem t mem)) fitsBelow (by omega)
      refine ⟨M, ?_, tightM, ?_⟩
      · simpa [List.takeWhile_cons, List.dropWhile_cons, goes] using released
      · simpa [List.dropWhile_cons, goes] using fitsM
    · refine ⟨L, ?_, tight, ?_⟩
      · simpa [List.takeWhile_cons, List.dropWhile_cons, goes] using o
      · simpa [List.dropWhile_cons, goes] using fits

/-- Everything down to the last opening bracket may leave the stack after a primary. -/
lemma releaseGroup (o : Operand .primary ts stack output) :
    ∃ K, Operand K ts (stack.dropWhile (!·.opensGroup))
      (output ++ stack.takeWhile (!·.opensGroup)) := by
  obtain ⟨us, vs, before, e, frames, derives⟩ := o
  have strong : ∀ t ∈ stack, (!t.opensGroup) = true → 1 ≤ t.strength := by
    intro t mem leaves
    exact frames.strength_pos t mem (by simpa using leaves)
  have fits := Nat.le_trans (operandLevel_le_signed stack) (show _ ≤ Level.primary.strength by decide)
  obtain ⟨K, released, -, -⟩ := release (!·.opensGroup) (Nat.le_refl 1)
    ⟨us, vs, before, e, frames, derives⟩ strong fits (by decide)
  exact ⟨K, released⟩

end Operand

/-- A sign is written as the operator that it is read from. -/
lemma BinaryOp.written_of_sign? (op : BinaryOp) {s : Sign} (sign : op.sign? = some s) : s.written = .op op := by
  cases op <;> cases sign <;> rfl

namespace Yard

/-- The yard has read the tokens: after a value they end with a complete primary, otherwise an operand is
due. -/
def Reads (y : Yard) (ts : List Token) : Prop :=
  if y.afterValue then Operand .primary ts y.stack y.output.reverse
  else Frames ts y.stack y.output.reverse

/-- The empty yard has read nothing. -/
lemma reads_empty : empty.Reads [] :=
  .start

namespace Reads

variable {limit : Nat} {y next : Yard} {ts us below : List Token} {t : Token} {op : BinaryOp}

/-- A closing bracket closes the frames of its group, which becomes a complete primary. -/
lemma closeGroup (r : y.Reads ts) (value : y.afterValue = true)
    (found : (y.release (!·.opensGroup)).stack = .lparen :: below) :
    Operand .primary (ts ++ [.rparen]) below (y.release (!·.opensGroup)).output.reverse := by
  simp only [Reads, value, if_true] at r
  obtain ⟨K, us, vs, before, e, frames, derives, rfl, outputs⟩ := r.releaseGroup
  dsimp only [release] at found ⊢
  rw [found] at frames
  cases frames with
  | group frames =>
    refine ⟨_, .lparen :: vs ++ [.rparen], before, e, frames, .group derives.toSum, by simp, ?_⟩
    rw [List.reverse_append, List.reverse_reverse, outputs]

/-- An operator after a value closes the frames that bind more tightly and opens its own. -/
lemma operator (r : y.Reads ts) (value : y.afterValue = true) :
    Frames (ts ++ [.op op]) (.op op :: (y.release (·.leavesBefore op)).stack)
      (y.release (·.leavesBefore op)).output.reverse := by
  simp only [Reads, value, if_true] at r
  have strong : ∀ t ∈ y.stack, t.leavesBefore op = true → op.leftLevel.strength ≤ t.strength :=
    fun t _ leaves => (Token.leavesBefore_iff op t).mp leaves
  have pos : 1 ≤ op.leftLevel.strength := by cases op <;> decide
  have fits := Nat.le_trans (operandLevel_le_signed y.stack) (show _ ≤ Level.primary.strength by decide)
  have tight : op.leftLevel.strength ≤ Level.primary.strength := by cases op <;> decide
  obtain ⟨K, ⟨us, vs, before, e, frames, derives, rfl, outputs⟩, tightK, -⟩ :=
    Operand.release (·.leavesBefore op) pos r strong fits tight
  have stays : ∀ t ∈ (y.stack.dropWhile (·.leavesBefore op)).head?, t.leavesBefore op = false := by
    intro t mem
    have kept := List.head?_dropWhile_not (·.leavesBefore op) y.stack
    rw [Option.mem_def.mp mem] at kept
    simpa using kept
  have frame := frames.operator (derives.loosen tightK) ((operandLevel_le_iff op _).mpr stays)
  simp only [release, List.reverse_append, List.reverse_reverse, outputs, List.append_assoc]
  exact frame

/-- Every move keeps the reading. -/
lemma moves (r : y.Reads ts) (moved : y.Moves limit t next) : next.Reads (ts ++ [t]) := by
  cases moved with
  | @number v fresh =>
    simp only [Reads, fresh] at r
    exact ⟨ts, [.number v], y.output.reverse, .number v, r, .number, rfl, by simp [Expr.postorder]⟩
  | openGroup fresh _ =>
    simp only [Reads, fresh] at r ⊢
    exact .group r
  | closeGroup value found =>
    have closed := r.closeGroup value found
    simpa only [Reads, release, value, if_true] using closed
  | operator value => exact r.operator value
  | @sign op s fresh written =>
    simp only [Reads, fresh] at r ⊢
    rw [← op.written_of_sign? written]
    exact r.sign

/-- A yard that goes on reading has read these tokens, too. -/
lemma run (r : y.Reads ts) (h : y.run limit us = .ok next) : next.Reads (ts ++ us) := by
  induction us generalizing y ts with
  | nil =>
    cases h
    simpa using r
  | cons u us ih =>
    obtain ⟨mid, moved, ran⟩ := run_cons_eq_ok_iff.mp h
    have read := ih (r.moves moved) ran
    rwa [List.append_assoc] at read

/-- What has been read when the yard finishes is an expression, and the output lists it in postfix order. -/
lemma derives_of_finish {output : List Token} (r : y.Reads ts) (h : y.finish = .ok output) :
    ∃ e, Derives .sum ts e ∧ output = e.postorder := by
  unfold finish at h
  split at h
  · rename_i value
    simp only [Reads, value, if_true] at r
    split at h
    · cases h
    · rename_i closed
      cases h
      have leaves : ∀ t ∈ y.stack, (!t.opensGroup) = true := by simpa using closed
      obtain ⟨K, us, vs, before, e, frames, derives, rfl, outputs⟩ := r.releaseGroup
      rw [List.dropWhile_eq_nil_iff.mpr leaves] at frames
      cases frames
      refine ⟨e, derives.toSum, ?_⟩
      rwa [List.takeWhile_eq_self_iff.mpr leaves] at outputs
  · cases h

end Reads

end Yard

end Calculator
