import Mathlib.Data.List.Induction
import Mathlib.Tactic.Lemma
import Calculator.Panel

/-!
# What the panel tells

The panel shows an error or a trace, and both stem from one past moment: the last calculation of an entry that was
not blank (`Panel.LastCalculation`). Such a calculation sets both outputs to its outcome. Every other action keeps
the trace, and keeps the error too unless it clears it. Main statement: after any actions the outputs are those of
the last calculation (`panel_tells_last_calculation`).
-/

namespace Calculator

namespace Panel

/-- The outcome of calculating the entry under the settings of the panel. -/
def outcome (p : Panel) : Except CalcError (Binary64 × Trace) :=
  (Calculator.calculate p.settings p.entry.trim).outcome

/-- The action calculates the entry, which is not blank. -/
def Calculates (p : Panel) (action : Action) : Prop :=
  action = .calculate ∧ p.entry.trim ≠ []

/-- After the actions `past` an entry that is not blank is calculated, and none of the actions `rest` that follow
calculates such an entry again. -/
structure LastCalculation (past rest actions : List Action) : Prop where
  split : actions = past ++ .calculate :: rest
  effective : (run {} past).entry.trim ≠ []
  last : ∀ mid later, rest = mid ++ .calculate :: later → (run {} (past ++ .calculate :: mid)).entry.trim = []

/-- The outputs of the panel after the actions: the trace that the last calculation gave, or the error that it
failed with, which a clearing of the entry takes away. -/
structure TellsLastCalculation (actions : List Action) (p : Panel) : Prop where
  trace : ∀ t, p.trace = some t ↔
    ∃ past rest v, LastCalculation past rest actions ∧ (run {} past).outcome = .ok (v, t)
  error : ∀ e, p.error = some e ↔
    ∃ past rest, LastCalculation past rest actions ∧ (run {} past).outcome = .error e ∧ .clear ∉ rest
  apart : p.error = none ∨ p.trace = none

/-- The last action acts on what the others leave. -/
lemma run_concat (p : Panel) (actions : List Action) (a : Action) :
    p.run (actions ++ [a]) = (p.run actions).apply a :=
  List.foldl_append

/-! ## One action -/

section

variable {p : Panel} {a : Action}

/-- A blank entry is not calculated. -/
lemma calculate_of_blank (blank : p.entry.trim = []) : p.calculate = { p with wantsFocus := true } := by
  rw [calculate, if_pos (List.isEmpty_iff.mpr blank)]

/-- A calculation that succeeds puts the result into the entry and keeps the trace. -/
lemma calculate_of_ok {v : Binary64} {t : Trace} (nonblank : p.entry.trim ≠ []) (value : p.outcome = .ok (v, t)) :
    p.calculate = { p with entry := v.resultText, error := none, trace := some t, wantsFocus := true } := by
  rw [outcome] at value
  rw [calculate, if_neg (mt List.isEmpty_iff.mp nonblank), value]

/-- A calculation that fails keeps the error and no trace. -/
lemma calculate_of_error {e : CalcError} (nonblank : p.entry.trim ≠ []) (failed : p.outcome = .error e) :
    p.calculate = { p with error := some e, trace := none, wantsFocus := true } := by
  rw [outcome] at failed
  rw [calculate, if_neg (mt List.isEmpty_iff.mp nonblank), failed]

/-- An action that calculates nothing keeps the trace. -/
lemma trace_apply (idle : ¬ p.Calculates a) : (p.apply a).trace = p.trace := by
  cases a with
  | calculate =>
    have blank : p.entry.trim = [] := by
      by_contra nonblank
      exact idle ⟨rfl, nonblank⟩
    rw [apply, calculate_of_blank blank]
  | _ => rfl

/-- An action that calculates nothing keeps the error, unless it clears the entry. -/
lemma error_apply (idle : ¬ p.Calculates a) (keeps : a ≠ .clear) : (p.apply a).error = p.error := by
  cases a with
  | calculate =>
    have blank : p.entry.trim = [] := by
      by_contra nonblank
      exact idle ⟨rfl, nonblank⟩
    rw [apply, calculate_of_blank blank]
  | clear => exact absurd rfl keeps
  | _ => rfl

end

/-! ## The last calculation of a run -/

section

variable {past rest actions : List Action} {a : Action}

/-- A calculation that ends a run is its last one. -/
lemma lastCalculation_concat_of_calculates (now : (run {} actions).Calculates a) :
    LastCalculation past rest (actions ++ [a]) ↔ past = actions ∧ rest = [] := by
  obtain ⟨rfl, nonblank⟩ := now
  constructor
  · rintro ⟨split, -, last⟩
    rcases List.eq_nil_or_concat rest with rfl | ⟨front, b, rfl⟩
    · obtain ⟨rfl, -⟩ := List.append_inj' split rfl
      exact ⟨rfl, rfl⟩
    · -- an earlier one would be followed by this one
      rw [List.concat_eq_append] at split last
      have same : actions ++ [.calculate] = (past ++ .calculate :: front) ++ [b] := by simpa using split
      obtain ⟨rfl, tail⟩ := List.append_inj' same rfl
      cases tail
      exact absurd (last front [] rfl) nonblank
  · rintro ⟨rfl, rfl⟩
    exact ⟨rfl, nonblank, by simp⟩

/-- An action that calculates nothing leaves the last calculation of a run where it was. -/
lemma lastCalculation_concat_of_idle (idle : ¬ (run {} actions).Calculates a) :
    LastCalculation past rest (actions ++ [a]) ↔
      ∃ before, rest = before ++ [a] ∧ LastCalculation past before actions := by
  constructor
  · rintro ⟨split, effective, last⟩
    rcases List.eq_nil_or_concat rest with rfl | ⟨front, b, rfl⟩
    · obtain ⟨rfl, tail⟩ := List.append_inj' split rfl
      cases tail
      exact absurd ⟨rfl, effective⟩ idle
    · rw [List.concat_eq_append] at split last ⊢
      have same : actions ++ [a] = (past ++ .calculate :: front) ++ [b] := by simpa using split
      obtain ⟨rfl, tail⟩ := List.append_inj' same rfl
      cases tail
      refine ⟨front, rfl, rfl, effective, fun mid later within => ?_⟩
      exact last mid (later ++ [a]) (by simp [within])
  · rintro ⟨before, rfl, rfl, effective, last⟩
    refine ⟨by simp, effective, fun mid later within => ?_⟩
    rcases List.eq_nil_or_concat later with rfl | ⟨front, b, rfl⟩
    · -- the action itself would be the calculation
      obtain ⟨rfl, tail⟩ := List.append_inj' within rfl
      cases tail
      by_contra nonblank
      exact idle ⟨rfl, nonblank⟩
    · rw [List.concat_eq_append] at within
      have same : before ++ [a] = (mid ++ .calculate :: front) ++ [b] := by simpa using within
      obtain ⟨rfl, -⟩ := List.append_inj' same rfl
      exact last mid front rfl

end

/-! ## Runs -/

namespace TellsLastCalculation

variable {actions : List Action} {a : Action}

/-- At the beginning nothing has been calculated. -/
lemma nil : TellsLastCalculation [] {} where
  trace := by
    intro t
    refine iff_of_false nofun ?_
    rintro ⟨past, rest, -, ⟨split, -, -⟩, -⟩
    simp at split
  error := by
    intro e
    refine iff_of_false nofun ?_
    rintro ⟨past, rest, ⟨split, -, -⟩, -⟩
    simp at split
  apart := .inl rfl

/-- A calculation sets the outputs to its outcome. -/
lemma concat_of_calculates (now : (run {} actions).Calculates a) :
    TellsLastCalculation (actions ++ [a]) ((run {} actions).apply a) := by
  have only (past rest : List Action) : LastCalculation past rest (actions ++ [a]) ↔ past = actions ∧ rest = [] :=
    lastCalculation_concat_of_calculates now
  obtain ⟨rfl, nonblank⟩ := now
  rw [apply]
  cases outcome : (run {} actions).outcome with
  | ok result =>
    obtain ⟨v, t⟩ := result
    rw [calculate_of_ok nonblank outcome]
    refine ⟨fun u => ?_, fun e => ?_, .inl rfl⟩
    · simp [only, outcome]
    · simp [only, outcome]
  | error e =>
    rw [calculate_of_error nonblank outcome]
    refine ⟨fun u => ?_, fun f => ?_, .inr rfl⟩
    · simp [only, outcome]
    · simp [only, outcome]

/-- An action that calculates nothing keeps the outputs, except that a clearing takes the error away. -/
lemma concat_of_idle (idle : ¬ (run {} actions).Calculates a)
    (tells : TellsLastCalculation actions (run {} actions)) :
    TellsLastCalculation (actions ++ [a]) ((run {} actions).apply a) where
  trace := by
    intro t
    rw [trace_apply idle, tells.trace]
    simp [lastCalculation_concat_of_idle idle]
  error := by
    intro e
    by_cases clears : a = .clear
    · subst clears
      refine iff_of_false nofun ?_
      rintro ⟨past, rest, last, -, kept⟩
      obtain ⟨before, rfl, -⟩ := (lastCalculation_concat_of_idle idle).mp last
      simp at kept
    · rw [error_apply idle clears, tells.error]
      simp [lastCalculation_concat_of_idle idle, Ne.symm clears]
  apart := by
    by_cases clears : a = .clear
    · subst clears
      exact .inl rfl
    · rw [trace_apply idle, error_apply idle clears]
      exact tells.apart

end TellsLastCalculation

/-- After any actions the panel tells of the last calculation alone: its trace if it succeeded, its error if it failed
and was not cleared since, and never both. -/
theorem panel_tells_last_calculation (actions : List Action) :
    TellsLastCalculation actions (run {} actions) := by
  induction actions using List.reverseRecOn with
  | nil => exact .nil
  | append_singleton actions a ih =>
    rw [run_concat]
    by_cases now : (run {} actions).Calculates a
    · exact .concat_of_calculates now
    · exact .concat_of_idle now ih

end Panel

end Calculator
