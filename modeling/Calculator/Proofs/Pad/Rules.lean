import Calculator.Proofs.Pad.Lead

/-!
# The rules for operators

An entry starts with no operator but a minus, and an operator takes the place of an operator or a point at the end of
the entry. The rules make one exception, for a sign: a minus follows an operator other than a minus. The panel makes it
for every symbol other than a minus that an operator replaces, a point included. Main statement: a key of the panel
keeps the rules except for a minus behind a point (`insert_ruled_iff`).
-/

namespace Calculator

namespace Entry

/-- What an operator makes of an entry by the rules. -/
inductive Ruled : Text → Char → Text → Prop where
  | leads :
    Ruled [] '-' ['-']
  | refused {op} :
    op ≠ '-' →
    Ruled [] op []
  | signs {front last} :
    isOperator last = true →
    last ≠ '-' →
    Ruled (front ++ [last]) '-' (front ++ [last] ++ ['-'])
  | replaces {front last op} :
    isOperator last = true ∨ last = '.' →
    ¬ (op = '-' ∧ isOperator last = true ∧ last ≠ '-') →
    Ruled (front ++ [last]) op (front ++ [op])
  | follows {front last op} :
    isOperator last = false →
    last ≠ '.' →
    Ruled (front ++ [last]) op (front ++ [last] ++ [op])

/-- By the rules, the symbol at the end gives way to the operator. -/
def Yields (last op : Char) : Prop :=
  (isOperator last = true ∨ last = '.') ∧ ¬ (op = '-' ∧ isOperator last = true ∧ last ≠ '-')

/-- On an empty entry every operator key follows the rules. -/
lemma ruled_putOperator_nil (op : Char) : Ruled [] op (putOperator [] op) := by
  rw [putOperator_nil]
  split
  · rename_i minus
    exact minus ▸ .leads
  · rename_i notMinus
    exact .refused notMinus

/-- The rules leave no choice: the symbol at the end gives way, or the operator is added. -/
lemma ruled_concat_iff {front result : Text} {last op : Char} :
    Ruled (front ++ [last]) op result ↔
      Yields last op ∧ result = front ++ [op] ∨ ¬ Yields last op ∧ result = front ++ [last] ++ [op] := by
  constructor
  · intro ruled
    generalize same : front ++ [last] = entry at ruled
    cases ruled with
    | leads => simp at same
    | refused _ => simp at same
    | signs isOp notMinus =>
      obtain ⟨rfl, tail⟩ := List.append_inj' same rfl
      cases tail
      exact .inr ⟨fun yields => yields.2 ⟨rfl, isOp, notMinus⟩, rfl⟩
    | replaces replaced noSign =>
      obtain ⟨rfl, tail⟩ := List.append_inj' same rfl
      cases tail
      exact .inl ⟨⟨replaced, noSign⟩, rfl⟩
    | follows plain notPoint =>
      obtain ⟨rfl, tail⟩ := List.append_inj' same rfl
      cases tail
      refine .inr ⟨fun yields => ?_, rfl⟩
      rcases yields.1 with isOp | point
      · rw [plain] at isOp
        cases isOp
      · exact notPoint point
  · rintro (⟨yields, rfl⟩ | ⟨keeps, rfl⟩)
    · exact .replaces yields.1 yields.2
    · by_cases sign : op = '-' ∧ isOperator last = true ∧ last ≠ '-'
      · obtain ⟨rfl, isOp, notMinus⟩ := sign
        exact .signs isOp notMinus
      · have plain : ¬ (isOperator last = true ∨ last = '.') := fun replaced => keeps ⟨replaced, sign⟩
        obtain ⟨notOp, notPoint⟩ := not_or.mp plain
        exact .follows (Bool.eq_false_iff.mpr notOp) notPoint

/-- The panel replaces the symbol that gives way by the rules, except for a minus behind a point. -/
lemma replaces_iff_yields {last op : Char} (noPoint : ¬ (op = '-' ∧ last = '.')) :
    Replaces last op ↔ Yields last op := by
  constructor
  · rintro ⟨replaced, onlyMinus⟩
    exact ⟨replaced, fun sign => sign.2.2 (onlyMinus sign.1)⟩
  · rintro ⟨replaced, noSign⟩
    refine ⟨replaced, fun minus => ?_⟩
    rcases replaced with isOp | point
    · by_contra notMinus
      exact noSign ⟨minus, isOp, notMinus⟩
    · exact absurd ⟨minus, point⟩ noPoint

/-- A point has to make room for a minus. -/
lemma yields_point_minus : Yields '.' '-' :=
  ⟨.inr rfl, fun sign => absurd sign.2.1 (by decide)⟩

/-- The minus key does not replace a point. -/
lemma not_replaces_point_minus : ¬ Replaces '.' '-' :=
  fun replaces => absurd (replaces.2 rfl) (by decide)

/-- An operator key keeps the rules except for a minus behind a point. -/
lemma ruled_putOperator_iff (entry : Text) (op : Char) :
    Ruled entry op (putOperator entry op) ↔ ¬ (op = '-' ∧ entry.getLast? = some '.') := by
  rcases List.eq_nil_or_concat entry with rfl | ⟨front, last, rfl⟩
  · exact iff_of_true (ruled_putOperator_nil op) (by simp)
  · rw [List.concat_eq_append, List.getLast?_concat, Option.some_inj]
    by_cases point : op = '-' ∧ last = '.'
    · obtain ⟨rfl, rfl⟩ := point
      refine iff_of_false (fun ruled => ?_) (not_not_intro ⟨rfl, rfl⟩)
      rw [putOperator_concat_of_not_replaces front not_replaces_point_minus] at ruled
      rcases ruled_concat_iff.mp ruled with ⟨-, same⟩ | ⟨keeps, -⟩
      · simp at same
      · exact keeps yields_point_minus
    · refine iff_of_true (ruled_concat_iff.mpr ?_) point
      by_cases replaces : Replaces last op
      · exact .inl ⟨(replaces_iff_yields point).mp replaces, putOperator_concat_of_replaces front replaces⟩
      · have keeps : ¬ Yields last op := mt (replaces_iff_yields point).mpr replaces
        exact .inr ⟨keeps, putOperator_concat_of_not_replaces front replaces⟩

/-- An operator key puts its operator. -/
lemma put_of_isOperator (entry : Text) {op : Char} (isOp : isOperator op = true) :
    put entry [op] = putOperator entry op := by
  rw [put, if_pos isOp]

/-- A text that is not an operator alone is appended. -/
lemma put_of_not_operator (entry : Text) {text : Text} (plain : ∀ op, isOperator op = true → text ≠ [op]) :
    put entry text = entry ++ text := by
  unfold put
  split
  · rename_i c
    rw [if_neg fun isOp => plain c isOp rfl]
  · rfl

/-- The minus key puts a minus behind a point. -/
lemma putOperator_minus_of_point {entry : Text} (point : entry.getLast? = some '.') :
    putOperator entry '-' = entry ++ ['-'] := by
  obtain ⟨front, rfl⟩ := List.getLast?_eq_some_iff.mp point
  exact putOperator_concat_of_not_replaces front not_replaces_point_minus

end Entry

/-- An operator key keeps the rules for operators unless it is a minus behind a point, which is added there; any other
text is appended, and the panel tells nothing new and keeps its settings. -/
theorem insert_ruled_iff (p : Panel) :
    (∀ op, isOperator op = true →
      (Entry.Ruled p.entry op (p.insert [op]).entry ↔ ¬ (op = '-' ∧ p.entry.getLast? = some '.'))) ∧
    (p.entry.getLast? = some '.' → (p.insert ['-']).entry = p.entry ++ ['-']) ∧
    (∀ text, (∀ op, isOperator op = true → text ≠ [op]) → (p.insert text).entry = p.entry ++ text) ∧
    ∀ text, (p.insert text).error = p.error ∧ (p.insert text).trace = p.trace ∧
      (p.insert text).settings = p.settings := by
  refine ⟨fun op isOp => ?_, fun point => ?_, fun text plain => ?_, fun text => ⟨rfl, rfl, rfl⟩⟩
  · rw [Panel.insert, Entry.put_of_isOperator p.entry isOp]
    exact Entry.ruled_putOperator_iff p.entry op
  · rw [Panel.insert, Entry.put_of_isOperator p.entry (by decide)]
    exact Entry.putOperator_minus_of_point point
  · exact Entry.put_of_not_operator p.entry plain

/-- A minus behind a multiplication sign is the sign of the next operand, a division sign replaces it, and a number
typed at once is appended. -/
theorem insert_ruled_iff_of_product :
    let p : Panel := { entry := "2×".toList }
    Entry.Ruled "2×".toList '-' "2×-".toList ∧ Entry.Ruled "2×".toList '÷' "2÷".toList ∧
      (p.insert "1e5".toList).entry = "2×1e5".toList := by
  intro p
  obtain ⟨operators, -, others, -⟩ := insert_ruled_iff p
  exact ⟨(operators '-' (by decide)).mpr (by decide), (operators '÷' (by decide)).mpr (by decide),
    others "1e5".toList (by simp)⟩

/-- The keys 5, point and minus leave the point, which the rules replace. -/
theorem insert_keeps_point :
    let p := Panel.run {} [.insert ['5'], .insert ['.']]
    (p.insert ['-']).entry = "5.-".toList ∧ Entry.Ruled p.entry '-' "5-".toList ∧
      ¬ Entry.Ruled p.entry '-' (p.insert ['-']).entry := by
  have entry : (Panel.run {} [.insert ['5'], .insert ['.']]).entry = ['5'] ++ ['.'] := by decide
  intro p
  refine ⟨by decide, ?_, ?_⟩
  · rw [entry]
    exact Entry.ruled_concat_iff.mpr (.inl ⟨Entry.yields_point_minus, rfl⟩)
  · rw [Panel.insert, Entry.put_of_isOperator p.entry (by decide), Entry.ruled_putOperator_iff]
    exact not_not_intro ⟨rfl, by rw [entry]; rfl⟩

end Calculator
