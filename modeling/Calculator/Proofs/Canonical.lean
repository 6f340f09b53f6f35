import Calculator.Proofs.Course
import Calculator.Proofs.Token.Text

/-!
# Calculating a canonical text again

A canonical text is an entry of its own, and it is calculated as the entry that it was made of
(`calculate_canonical`). The percent sign is a division by a hundred in an entry and the remainder in a canonical text,
and the two never meet: a percent sign would have to be in the text for the lexer to read a remainder from it
(`mod_not_mem_of_tokenize`), and none is left in a canonical text. Main statement: `canonical_resubmits`.
-/

namespace Calculator

variable {settings : Settings} {text : Text} {ts : List Token} {tree : Expr}

/-! ## The canonical text as an entry -/

/-- Outer blanks make no difference to the calculation of a canonical text. -/
lemma Reading.ofCanonical_trim (settings : Settings) (text : Text) :
    ofCanonical settings text.trim = ofCanonical settings text := by
  have allowed : settings.allow text.trim = settings.allow text := by
    rw [Settings.allow, Settings.allow, Text.trim_trim]
  rw [ofCanonical, ofCanonical, allowed]

/-- Every character of a canonical text stands for itself. -/
lemma canonicalChar_of_mem_canonical {entry : Text} : ∀ c ∈ (canonical entry).trim, canonicalChar c = [c] :=
  fun _ mem => canonicalChar_of_ne (mem_canonical_ne (Text.mem_of_mem_trim mem))

/-- No percent sign is in a canonical text. -/
lemma percent_not_mem_canonical (entry : Text) : '%' ∉ canonical entry :=
  fun mem => (mem_canonical_ne mem).2.2 rfl

/-- The canonical text of an entry is calculated as the entry is, events included. -/
lemma calculate_canonical (settings : Settings) (entry : Text) :
    calculate settings (canonical entry).trim = calculate settings entry := by
  rw [calculate, calculate, canonical_eq_self canonicalChar_of_mem_canonical, Reading.ofCanonical_trim]

/-! ## Remainders -/

/-- The operators in an expression. -/
def Expr.operators : Expr → List BinaryOp
  | number _ => []
  | binary op a b => op :: (a.operators ++ b.operators)
  | signed _ x => x.operators

/-- An operator of an expression is in its listing. -/
lemma Expr.op_mem_postorder {e : Expr} {op : BinaryOp} (mem : op ∈ e.operators) : .op op ∈ e.postorder := by
  induction e with
  | number v => exact absurd mem List.not_mem_nil
  | signed s x ih => exact List.mem_append_left _ (ih mem)
  | binary o a b left right =>
    rcases List.mem_cons.mp mem with rfl | mem
    · exact List.mem_append_right _ (List.mem_singleton_self _)
    · rcases List.mem_append.mp mem with mem | mem
      · exact mem_postorder_of_left (left mem)
      · exact mem_postorder_of_right (right mem)

/-- Without a percent sign, a text holds no remainder. -/
lemma mod_not_mem_of_tokenize (tokens : tokenize text = .ok ts) (noPercent : '%' ∉ text) : .op .mod ∉ ts := by
  intro mem
  obtain ⟨c, inside, rest, after, found⟩ := exists_token_of_mem tokens mem
  rcases Lexer.symbol_or_number found with symbol | ⟨lexeme, v, -, same⟩
  · cases Lexer.text_append_of_symbol? symbol
    exact noPercent inside
  · cases same

section

variable (w : WellFormed settings text ts tree) (noPercent : '%' ∉ text)

include w noPercent

/-- No remainder is among the tokens of a canonical text. -/
lemma WellFormed.mod_not_mem_tokens : .op .mod ∉ ts :=
  mod_not_mem_of_tokenize w.tokens fun mem => noPercent (Text.mem_of_mem_trim mem)

/-- No remainder is in the listing of the tree of a canonical text. -/
lemma WellFormed.mod_not_mem_postorder : .op .mod ∉ tree.postorder :=
  fun mem => w.mod_not_mem_tokens noPercent (w.derives.mem_of_mem_postorder (by simp) mem)

/-- The tree of a text without a percent sign computes no remainder. -/
lemma WellFormed.mod_not_mem_operators : .mod ∉ tree.operators :=
  fun mem => w.mod_not_mem_postorder noPercent (Expr.op_mem_postorder mem)

end

/-! ## Divisions by zero -/

/-- What a computation reports that goes on is reported by one of its parts. -/
lemma Logged.mem_events_bind {α β : Type} {x : Logged α} {f : α → Logged β} {event : Event}
    (mem : event ∈ (x >>= f).events) : event ∈ x.events ∨ ∃ a, event ∈ (f a).events := by
  cases outcome : x.outcome with
  | error e =>
    rw [bind_of_error f outcome] at mem
    exact .inl mem
  | ok a =>
    rw [bind_of_ok f outcome] at mem
    exact (List.mem_append.mp mem).imp_right fun after => ⟨a, after⟩

/-- A zero divisor is reported with the operator that is run. -/
lemma BinaryOp.eq_of_zeroDivisor_mem_run {op o : BinaryOp} {a b left : Binary64}
    (mem : .zeroDivisor left op ∈ (o.run a b).events) : op = o := by
  unfold run at mem
  split at mem
  · rename_i event fault
    cases List.mem_singleton.mp mem
    unfold fault? at fault
    split at fault
    · cases fault
      rfl
    · split at fault <;> cases fault
  · cases mem

/-- Evaluation reports a zero divisor for an operator of the expression only. -/
lemma Expr.mem_operators_of_zeroDivisor {e : Expr} {left : Binary64} {op : BinaryOp}
    (mem : .zeroDivisor left op ∈ e.eval.events) : op ∈ e.operators := by
  induction e with
  | number v => cases mem
  | signed s x ih =>
    rcases Logged.mem_events_bind mem with inside | ⟨v, after⟩
    · exact ih inside
    · cases after
  | binary o a b inLeft inRight =>
    rcases Logged.mem_events_bind mem with inside | ⟨v, after⟩
    · exact List.mem_cons_of_mem _ (List.mem_append_left _ (inLeft inside))
    · rcases Logged.mem_events_bind after with inside | ⟨w, here⟩
      · exact List.mem_cons_of_mem _ (List.mem_append_right _ (inRight inside))
      · rw [BinaryOp.eq_of_zeroDivisor_mem_run here]
        exact List.mem_cons_self

/-- A calculation reports a zero divisor for an operator of its tree only. -/
lemma Reading.exists_of_zeroDivisor {left : Binary64} {op : BinaryOp}
    (mem : .zeroDivisor left op ∈ (ofCanonical settings text).events) :
    ∃ ts tree, WellFormed settings text ts tree ∧ op ∈ tree.operators := by
  by_cases wellFormed : ∃ ts tree, WellFormed settings text ts tree
  · obtain ⟨ts, tree, w⟩ := wellFormed
    refine ⟨ts, tree, w, ?_⟩
    rw [w.ofCanonical] at mem
    rcases Logged.mem_events_bind mem with opening | ⟨-, after⟩
    · simp [Logged.emit] at opening
    · rcases Logged.mem_events_bind after with evaluation | ⟨v, closing⟩
      · exact tree.mem_operators_of_zeroDivisor evaluation
      · by_cases isFinite : v.isFinite = true
        · rw [requireFinite, if_pos isFinite, Logged.accept_ok_bind, Logged.emit_bind] at closing
          simp [Logged.pure_eq] at closing
        · rw [requireFinite, if_neg isFinite, Logged.accept_error_bind] at closing
          simp [Logged.reject, Logged.fail] at closing
  · have rejected := rejected_of_not_wellFormed wellFormed
    generalize ofCanonical settings text = c at rejected mem
    cases rejected with
    | unread _ _ => simp at mem
    | read _ _ _ => simp at mem

/-! ## The texts of a trace -/

/-- The text holds none of the symbols that an entry writes in their own way. -/
def Text.IsCanonical (text : Text) : Prop :=
  '×' ∉ text ∧ '÷' ∉ text ∧ '%' ∉ text

/-- A text is canonical when every character of it stands for itself. -/
lemma Text.isCanonical_of_forall {text : Text} (each : ∀ c ∈ text, canonicalChar c = [c]) : text.IsCanonical :=
  ⟨fun mem => absurd (each _ mem) (by decide), fun mem => absurd (each _ mem) (by decide),
    fun mem => absurd (each _ mem) (by decide)⟩

/-- In the text of tokens without a remainder every character stands for itself. -/
lemma Token.canonicalChar_of_mem_listText {ts : List Token} (noMod : .op .mod ∉ ts) :
    ∀ c ∈ listText ts, canonicalChar c = [c] := by
  induction ts with
  | nil => exact fun c mem => absurd mem List.not_mem_nil
  | cons t ts ih =>
    obtain ⟨other, others⟩ := not_or.mp (mt List.mem_cons.mpr noMod)
    have first : ∀ c ∈ t.text, canonicalChar c = [c] := fun c mem => (kept_of_mem_text (Ne.symm other) c mem).2
    cases ts with
    | nil => exact first
    | cons u ts =>
      rw [listText_cons_cons]
      exact List.forall_mem_append.mpr ⟨first, List.forall_mem_cons.mpr ⟨by decide, ih others⟩⟩

/-- In the text of an expression without a remainder every character stands for itself. -/
lemma Expr.canonicalChar_of_mem_text {e : Expr} (noMod : .mod ∉ e.operators) :
    ∀ c ∈ e.text, canonicalChar c = [c] := by
  induction e with
  | number v => exact fun c mem => (v.kept_of_mem_text c mem).2
  | signed s x ih => exact List.forall_mem_cons.mpr ⟨(kept_symbol s).2, ih noMod⟩
  | binary op a b left right =>
    obtain ⟨other, others⟩ := not_or.mp (mt List.mem_cons.mpr noMod)
    obtain ⟨inLeft, inRight⟩ := not_or.mp (mt List.mem_append.mpr others)
    have isOther : Token.op op ≠ .op .mod := fun same => other (Token.op.inj same).symm
    have operator : ∀ c ∈ op.symbol, canonicalChar c = [c] := fun c mem => (Token.kept_of_mem_text isOther c mem).2
    simp only [text, List.cons_append, List.append_assoc, List.forall_mem_cons, List.forall_mem_append]
    exact ⟨by decide, left inLeft, by decide, operator, by decide, right inRight, by decide, by simp⟩

/-- The trace of a reading of a canonical text is made of canonical texts. -/
lemma isCanonical_trace {entry : Text} {r : Reading}
    (outcome : (Reading.ofCanonical settings (canonical entry)).outcome = .ok r) :
    .mod ∉ r.tree.operators ∧
      ∀ text ∈ [r.trace.canonical, r.trace.tokens, r.trace.postorder, r.trace.tree], text.IsCanonical := by
  obtain ⟨ts, tree, v, w, -, -, rfl⟩ := Reading.outcome_ofCanonical_eq_ok_iff.mp outcome
  have noPercent := percent_not_mem_canonical entry
  have inTokens := w.mod_not_mem_tokens noPercent
  have inPostorder := w.mod_not_mem_postorder noPercent
  have inTree := w.mod_not_mem_operators noPercent
  refine ⟨inTree, ?_⟩
  simp only [Reading.trace, List.forall_mem_cons]
  exact ⟨Text.isCanonical_of_forall canonicalChar_of_mem_canonical,
    Text.isCanonical_of_forall (Token.canonicalChar_of_mem_listText inTokens),
    Text.isCanonical_of_forall (Token.canonicalChar_of_mem_listText inPostorder),
    Text.isCanonical_of_forall (Expr.canonicalChar_of_mem_text inTree), by simp⟩

/-- The canonical text in the trace of an entry is calculated to the same value with the same trace, and evaluated to
the same value when the settings are the default ones; the trace is made of canonical texts, and the tree that it shows
computes no remainder. No calculation of an entry, whatever its outcome, reports a zero divisor of a remainder. -/
theorem canonical_resubmits (settings : Settings) (entry : Text) :
    (∀ v trace, (calculate settings entry).outcome = .ok (v, trace) →
      (calculate settings trace.canonical).outcome = .ok (v, trace) ∧
      (settings = {} → evaluate trace.canonical = .ok v) ∧
      (∀ text ∈ [trace.canonical, trace.tokens, trace.postorder, trace.tree], text.IsCanonical) ∧
      ∃ r, (Reading.ofCanonical settings (canonical entry)).outcome = .ok r ∧ r.trace = trace ∧
        .mod ∉ r.tree.operators) ∧
    ∀ left, .zeroDivisor left .mod ∉ (calculate settings entry).events := by
  constructor
  · intro v trace outcome
    have read := outcome
    rw [calculate_eq] at read
    cases reading : (Reading.ofCanonical settings (canonical entry)).outcome with
    | error e =>
      rw [reading] at read
      cases read
    | ok r =>
      rw [reading] at read
      cases read
      have canonicalText : r.trace.canonical = (canonical entry).trim := by
        obtain ⟨ts, tree, v, -, -, -, rfl⟩ := Reading.outcome_ofCanonical_eq_ok_iff.mp reading
        rfl
      obtain ⟨noMod, plain⟩ := isCanonical_trace reading
      refine ⟨?_, ?_, plain, r, rfl, rfl, noMod⟩
      · rw [canonicalText, calculate_canonical]
        exact outcome
      · rintro rfl
        rw [canonicalText, evaluate, Reading.ofCanonical_trim, reading]
        rfl
  · intro left mem
    rw [calculate_eq] at mem
    obtain ⟨ts, tree, w, inTree⟩ := Reading.exists_of_zeroDivisor mem
    exact w.mod_not_mem_operators (percent_not_mem_canonical entry) inTree

/-- Half of a product: the percent sign is a division by a hundred in the trace, which is calculated again. -/
theorem canonical_resubmits_of_percentage :
    let half := Decimal.round .plus ⟨15, -1⟩
    let trace : Trace :=
      ⟨"3*50/100".toList, "3 * 50 / 100".toList, "3 50 * 100 /".toList, "((3 * 50) / 100)".toList⟩
    (calculate {} " 3×50%".toList).outcome = .ok (half, trace) ∧
      (calculate {} "3*50/100".toList).outcome = .ok (half, trace) ∧
      evaluate "3*50/100".toList = .ok half ∧
      (∀ text ∈ [trace.canonical, trace.tokens, trace.postorder, trace.tree], text.IsCanonical) ∧
      ∃ r, (Reading.ofCanonical {} (canonical " 3×50%".toList)).outcome = .ok r ∧ r.trace = trace ∧
        .mod ∉ r.tree.operators := by
  intro half trace
  have value : (calculate {} " 3×50%".toList).outcome = .ok (half, trace) := by decide +kernel
  obtain ⟨again, evaluated, plain, noMod⟩ := (canonical_resubmits {} " 3×50%".toList).1 half trace value
  exact ⟨value, again, evaluated rfl, plain, noMod⟩

end Calculator
