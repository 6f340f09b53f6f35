import Calculator.Proofs.Outcome

/-!
# The course of a calculation

A calculation of a canonical text takes one of five courses: it is refused for its length, its text is not well
formed, its tree faults, its value is not finite, or it has a result. `Course` lists their events and outcomes, and
every calculation takes one of them (`Reading.course`). Main statement: the log of a calculation, line by line with
level, message and fields, tells its outcome, one line closing each (`events_tell_outcome`).
-/

namespace Calculator

/-! ## The five courses -/

variable {settings : Settings} {text : Text}

/-- The courses that the calculation of a canonical text may take, with their events and outcomes. -/
inductive Course (settings : Settings) (text : Text) : Logged Reading → Prop where
  | refused {reason} :
    text.trim = [] ∨ settings.maxLength < text.trim.length →
    Course settings text ⟨[.rejected reason], .error .invalidExpression⟩
  | malformed {reason} :
    text.trim ≠ [] →
    text.trim.length ≤ settings.maxLength →
    (¬ ∃ ts tree, WellFormed settings text ts tree) →
    Course settings text ⟨[.reading text.trim, .rejected reason], .error .invalidExpression⟩
  | faulty {ts tree event} :
    WellFormed settings text ts tree →
    tree.Faults →
    event.ReportsFault →
    Course settings text ⟨[.reading text.trim, event], .error .divisionByZero⟩
  | notFinite {ts tree v} :
    WellFormed settings text ts tree →
    tree.Evaluates v →
    v.isFinite = false →
    Course settings text ⟨[.reading text.trim, .rejected (.notFinite v)], .error .invalidExpression⟩
  | result {ts tree v} :
    WellFormed settings text ts tree →
    tree.Evaluates v →
    v.isFinite = true →
    Course settings text
      ⟨[.reading text.trim, .result v], .ok ⟨text.trim, ts, tree.postorder, tree, v⟩⟩

/-- A text that is not well formed is rejected, unread only when it is empty or too long. -/
lemma Course.of_not_wellFormed (h : ¬ ∃ ts tree, WellFormed settings text ts tree) :
    Course settings text (Reading.ofCanonical settings text) := by
  have rejected := rejected_of_not_wellFormed h
  generalize Reading.ofCanonical settings text = c at rejected
  cases rejected with
  | unread refuses _ => exact .refused refuses
  | read nonempty short _ => exact .malformed nonempty short h

/-- A well-formed text is evaluated: its tree faults, or has a value, which is the result when it is finite. -/
lemma Course.of_wellFormed {ts : List Token} {tree : Expr} (w : WellFormed settings text ts tree) :
    Course settings text (Reading.ofCanonical settings text) := by
  rw [w.ofCanonical, Logged.emit_bind]
  rcases tree.evaluates_or_faults with ⟨v, evaluates⟩ | faults
  · rw [evaluates.eval_eq, Logged.pure_bind]
    by_cases isFinite : v.isFinite = true
    · rw [requireFinite, if_pos isFinite, Logged.accept_ok_bind]
      exact .result w evaluates isFinite
    · rw [requireFinite, if_neg isFinite, Logged.accept_error_bind]
      exact .notFinite w evaluates (Bool.eq_false_iff.mpr isFinite)
  · obtain ⟨event, reports, same⟩ := faults.eval_eq
    rw [same, Logged.fail_bind]
    exact .faulty w faults reports

/-- Every calculation of a canonical text takes one of the five courses. -/
lemma Reading.course (settings : Settings) (text : Text) :
    Course settings text (Reading.ofCanonical settings text) := by
  by_cases wellFormed : ∃ ts tree, WellFormed settings text ts tree
  · obtain ⟨ts, tree, w⟩ := wellFormed
    exact .of_wellFormed w
  · exact .of_not_wellFormed wellFormed

/-- An outcome of which something is known is there. -/
lemma exists_ok_of_map_toOption {ε α β : Type} {x : Except ε α} {f : α → β} {b : β}
    (found : x.toOption.map f = some b) : ∃ a, x = .ok a ∧ f a = b := by
  cases x with
  | error e => cases found
  | ok a => exact ⟨a, rfl, Option.some.inj found⟩

/-- A reading holds what the stages make of a well-formed text that stands for a finite number. -/
lemma Reading.outcome_ofCanonical_eq_ok_iff {r : Reading} :
    (Reading.ofCanonical settings text).outcome = .ok r ↔
      ∃ ts tree v, WellFormed settings text ts tree ∧ tree.Evaluates v ∧ v.isFinite = true ∧
        r = ⟨text.trim, ts, tree.postorder, tree, v⟩ := by
  constructor
  · intro outcome
    have course := Reading.course settings text
    generalize Reading.ofCanonical settings text = c at course outcome
    cases course with
    | result w evaluates isFinite =>
      cases outcome
      exact ⟨_, _, _, w, evaluates, isFinite, rfl⟩
    | _ => cases outcome
  · rintro ⟨ts, tree, v, w, evaluates, isFinite, rfl⟩
    rw [w.ofCanonical, Logged.emit_bind, evaluates.eval_eq, Logged.pure_bind, requireFinite, if_pos isFinite]
    rfl

/-! ## Events and outcomes -/

/-- The calculation of an entry reports what that of its canonical text reports. -/
lemma calculate_eq (settings : Settings) (entry : Text) :
    calculate settings entry =
      ⟨(Reading.ofCanonical settings (canonical entry)).events,
        (Reading.ofCanonical settings (canonical entry)).outcome.map fun r => (r.value, r.trace)⟩ := by
  rw [calculate]
  cases outcome : (Reading.ofCanonical settings (canonical entry)).outcome with
  | ok r =>
    rw [Logged.bind_of_ok _ outcome, Logged.pure_eq, List.append_nil]
    rfl
  | error e =>
    rw [Logged.bind_of_error _ outcome]
    rfl

namespace LogLine

/-- The line that tells which text is read. -/
def ofReading (text : Text) : LogLine :=
  ⟨"TRACE", "lecture", [("canonique", .text text)]⟩

/-- The line that tells the result. -/
def ofResult (value : Binary64) : LogLine :=
  ⟨"TRACE", "résultat", [("valeur", .number value)]⟩

/-- The line tells that an expression is rejected, and why. -/
def TellsRejection (line : LogLine) : Prop :=
  ∃ reason, line = ⟨"DEBUG", "expression rejetée", [("raison", .text reason)]⟩

/-- The line tells of a faulty operation: a division with its dividend and its symbol, or a power with its base, which
is a zero, and its exponent, which is below zero. -/
inductive TellsFault : LogLine → Prop where
  | divisor {left symbol} :
    symbol ∈ [['/'], ['/', '/'], ['%']] →
    TellsFault ⟨"DEBUG", "diviseur nul", [("gauche", .number left), ("op", .text symbol)]⟩
  | power {base exponent : Binary64} :
    base = .zero .plus ∨ base = .zero .minus →
    exponent.lt (.zero .plus) = true →
    TellsFault ⟨"DEBUG", "zéro élevé à une puissance négative",
      [("base", .number base), ("exposant", .number exponent)]⟩

/-- The line has the message of a faulty operation. -/
def NamesFault (line : LogLine) : Prop :=
  line.message = "diviseur nul" ∨ line.message = "zéro élevé à une puissance négative"

/-- The line closes a calculation: only the one that tells which text is read does not. -/
def Closes (line : LogLine) : Prop :=
  line.message ≠ "lecture"

variable {line : LogLine}

/-- The line that tells which text is read has that text in it. -/
lemma ofReading_inj {text other : Text} : ofReading text = ofReading other ↔ text = other := by
  simp [ofReading]

/-- The line that tells the result has that number in it. -/
lemma ofResult_inj {v w : Binary64} : ofResult v = ofResult w ↔ v = w := by
  simp [ofResult]

/-- The line that tells which text is read closes nothing. -/
lemma not_closes_ofReading (text : Text) : ¬ (ofReading text).Closes :=
  fun closes => closes rfl

/-- The line that tells which text is read has no message of a faulty operation. -/
lemma not_namesFault_ofReading (text : Text) : ¬ (ofReading text).NamesFault := by
  simp [NamesFault, ofReading]

/-- What closes a calculation does not tell which text is read. -/
lemma Closes.ne_ofReading (closes : line.Closes) (text : Text) : line ≠ ofReading text := by
  rintro rfl
  exact not_closes_ofReading text closes

/-- A rejection has a message of its own. -/
lemma TellsRejection.message (tells : line.TellsRejection) : line.message = "expression rejetée" := by
  obtain ⟨reason, rfl⟩ := tells
  rfl

/-- A faulty operation has one of two messages of its own. -/
lemma TellsFault.namesFault (tells : line.TellsFault) : line.NamesFault := by
  cases tells with
  | divisor _ => exact .inl rfl
  | power _ _ => exact .inr rfl

/-- A faulty operation is no rejection. -/
lemma TellsFault.not_tellsRejection (fault : line.TellsFault) : ¬ line.TellsRejection := by
  intro rejection
  rcases fault.namesFault with message | message <;> simp [rejection.message] at message

/-- A faulty operation is no result. -/
lemma TellsFault.ne_ofResult (fault : line.TellsFault) (v : Binary64) : line ≠ ofResult v := by
  rintro rfl
  rcases fault.namesFault with message | message <;> simp [ofResult] at message

/-- A rejection is no result. -/
lemma TellsRejection.ne_ofResult (rejection : line.TellsRejection) (v : Binary64) : line ≠ ofResult v := by
  rintro rfl
  have message := rejection.message
  simp [ofResult] at message

end LogLine

/-- The line of an event that reports a faulty operation tells of it. -/
lemma Event.ReportsFault.tellsFault {event : Event} (reports : event.ReportsFault) : event.line.TellsFault := by
  cases reports with
  | zeroDivisor divides =>
    refine .divisor ?_
    rcases divides with rfl | rfl | rfl
    · simp [BinaryOp.symbol]
    · simp [BinaryOp.symbol]
    · simp [BinaryOp.symbol]
  | zeroToNegative zero negative => exact .power zero negative

/-- The log of the calculation of an entry tells its outcome. -/
structure TellsOutcome (settings : Settings) (entry : Text) (c : Logged (Binary64 × Trace)) : Prop where
  value : ∀ text v, c.lines = [.ofReading text, .ofResult v] ↔
    ∃ trace, c.outcome = .ok (v, trace) ∧ trace.canonical = text
  divisionByZero : c.outcome = .error .divisionByZero ↔
    ∃ text line, c.lines = [.ofReading text, line] ∧ line.TellsFault
  invalid : c.outcome = .error .invalidExpression ↔
    (∃ line, c.lines = [line] ∧ line.TellsRejection) ∨
      ∃ text line, c.lines = [.ofReading text, line] ∧ line.TellsRejection
  refused : (∃ line, c.lines = [line] ∧ line.TellsRejection) ↔
    (canonical entry).trim = [] ∨ settings.maxLength < (canonical entry).trim.length
  reading : ∀ text, .ofReading text ∈ c.lines → text = (canonical entry).trim
  fault : ∀ line ∈ c.lines, line.NamesFault → line.TellsFault
  closed : ∃ opening line, c.lines = opening ++ [line] ∧ line.Closes ∧ ∀ l ∈ opening, ¬ l.Closes

namespace TellsOutcome

variable {entry : Text} {c : Logged (Binary64 × Trace)} {line : LogLine}

/-- A rejection before the text is read tells that the text is empty or too long. -/
lemma of_refused (refuses : (canonical entry).trim = [] ∨ settings.maxLength < (canonical entry).trim.length)
    (outcome : c.outcome = .error .invalidExpression) (lines : c.lines = [line]) (tells : line.TellsRejection) :
    TellsOutcome settings entry c where
  value text v := by simp [outcome, lines]
  divisionByZero := by simp [outcome, lines]
  invalid := iff_of_true outcome (.inl ⟨line, lines, tells⟩)
  refused := iff_of_true ⟨line, lines, tells⟩ refuses
  reading text mem := by
    obtain rfl : .ofReading text = line := by simpa [lines] using mem
    have message := tells.message
    simp [LogLine.ofReading] at message
  fault other mem names := by
    obtain rfl : other = line := by simpa [lines] using mem
    simp [LogLine.NamesFault, tells.message] at names
  closed := ⟨[], line, lines, by simp [LogLine.Closes, tells.message], by simp⟩

section

variable (nonempty : (canonical entry).trim ≠ []) (short : (canonical entry).trim.length ≤ settings.maxLength)
  (lines : c.lines = [.ofReading (canonical entry).trim, line])

include nonempty short lines

/-- After the text is read, one more line tells the outcome, if it tells a value, a division by zero or a rejection just
where the outcome is that. -/
lemma of_line (value : ∀ v, line = .ofResult v ↔ ∃ trace, c.outcome = .ok (v, trace))
    (read : ∀ v trace, c.outcome = .ok (v, trace) → trace.canonical = (canonical entry).trim)
    (divided : c.outcome = .error .divisionByZero ↔ line.TellsFault)
    (rejected : c.outcome = .error .invalidExpression ↔ line.TellsRejection) (closes : line.Closes)
    (fault : line.NamesFault → line.TellsFault) :
    TellsOutcome settings entry c := by
  have same {text : Text} {other : LogLine} :
      c.lines = [.ofReading text, other] ↔ text = (canonical entry).trim ∧ other = line := by
    rw [lines, List.cons.injEq, LogLine.ofReading_inj, List.cons.injEq]
    simp [eq_comm]
  have notSingle (other : LogLine) : c.lines ≠ [other] := by simp [lines]
  refine ⟨fun text v => ?_, ?_, ?_, ?_, fun text mem => ?_, fun other mem names => ?_, ?_⟩
  · rw [same, eq_comm (b := line), value]
    constructor
    · rintro ⟨rfl, trace, outcome⟩
      exact ⟨trace, outcome, read v trace outcome⟩
    · rintro ⟨trace, outcome, rfl⟩
      exact ⟨read v trace outcome, trace, outcome⟩
  · rw [divided]
    simp [same, and_assoc]
  · rw [rejected]
    simp [same, notSingle, and_assoc]
  · simp [notSingle, nonempty, Nat.not_lt.mpr short]
  · rw [lines, List.mem_cons, List.mem_singleton, LogLine.ofReading_inj] at mem
    exact mem.resolve_right fun same => closes.ne_ofReading text same.symm
  · rw [lines, List.mem_cons, List.mem_singleton] at mem
    rcases mem with rfl | rfl
    · exact absurd names (LogLine.not_namesFault_ofReading _)
    · exact fault names
  · exact ⟨[_], line, lines, closes, by simp [LogLine.not_closes_ofReading]⟩

/-- A rejection after the text is read tells that the expression is invalid. -/
lemma of_rejected (outcome : c.outcome = .error .invalidExpression) (tells : line.TellsRejection) :
    TellsOutcome settings entry c := by
  refine of_line nonempty short lines (fun v => ?_) (by simp [outcome]) ?_ (iff_of_true outcome tells) ?_ ?_
  · exact iff_of_false (tells.ne_ofResult v) (by simp [outcome])
  · exact iff_of_false (by simp [outcome]) fun fault => fault.not_tellsRejection tells
  · simp [LogLine.Closes, tells.message]
  · simp [LogLine.NamesFault, tells.message]

/-- A faulty operation after the text is read tells of a division by zero. -/
lemma of_faulty (outcome : c.outcome = .error .divisionByZero) (tells : line.TellsFault) :
    TellsOutcome settings entry c := by
  refine of_line nonempty short lines (fun v => ?_) (by simp [outcome]) (iff_of_true outcome tells) ?_ ?_ fun _ => tells
  · exact iff_of_false (tells.ne_ofResult v) (by simp [outcome])
  · exact iff_of_false (by simp [outcome]) tells.not_tellsRejection
  · rcases tells.namesFault with message | message <;> simp [LogLine.Closes, message]

end

/-- A result after the text is read tells the value. -/
lemma of_result (nonempty : (canonical entry).trim ≠ []) (short : (canonical entry).trim.length ≤ settings.maxLength)
    {v : Binary64} {trace : Trace} (read : trace.canonical = (canonical entry).trim)
    (outcome : c.outcome = .ok (v, trace)) (lines : c.lines = [.ofReading (canonical entry).trim, .ofResult v]) :
    TellsOutcome settings entry c := by
  refine of_line nonempty short lines (fun w => ?_) (fun w told same => ?_) ?_ ?_ ?_ ?_
  · rw [LogLine.ofResult_inj, outcome]
    simp
  · rw [outcome] at same
    cases same
    exact read
  · exact iff_of_false (by simp [outcome]) fun fault => fault.ne_ofResult v rfl
  · exact iff_of_false (by simp [outcome]) fun rejection => rejection.ne_ofResult v rfl
  · simp [LogLine.Closes, LogLine.ofResult]
  · simp [LogLine.NamesFault, LogLine.ofResult]

end TellsOutcome

/-- The log of a calculation is of one shape for each outcome: the reading and the result of a value, the reading and
one faulty operation of a division by zero, one rejection, after the reading unless the text is empty or too long, of
an invalid expression. -/
theorem events_tell_outcome (settings : Settings) (entry : Text) :
    TellsOutcome settings entry (calculate settings entry) := by
  have course := Reading.course settings (canonical entry)
  rw [calculate_eq]
  generalize Reading.ofCanonical settings (canonical entry) = c at course
  cases course with
  | refused refuses => exact .of_refused refuses rfl rfl ⟨_, rfl⟩
  | malformed nonempty short => exact .of_rejected nonempty short rfl rfl ⟨_, rfl⟩
  | faulty w _ reports => exact .of_faulty w.nonempty w.short rfl rfl reports.tellsFault
  | notFinite w => exact .of_rejected w.nonempty w.short rfl rfl ⟨_, rfl⟩
  | result w => exact .of_result w.nonempty w.short rfl rfl rfl

end Calculator
