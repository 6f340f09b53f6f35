import Mathlib.Data.Bool.AllAny
import Calculator.Proofs.Pad.Lead

/-!
# Texts pressed on the pad

A calculation takes a percent sign for the end of the operand before it, and any operator may follow. The panel takes it
for an operator, which the next operator replaces. So a text whose symbols are pressed one by one is not always the
entry that they make. Main statement: a text whose infix operators have operands to their left is made by pressing its
symbols exactly when none of them stands behind a percent sign (`entry_press_eq_iff`).
-/

namespace Calculator

namespace Entry

/-! ## One key -/

/-- A key appends its symbol, or the entry grows no longer. -/
lemma put_cases (entry : Text) (c : Char) :
    put entry [c] = entry ++ [c] ∨ (put entry [c]).length ≤ entry.length := by
  by_cases isOp : isOperator c = true
  · rw [put, if_pos isOp]
    rcases List.eq_nil_or_concat entry with rfl | ⟨front, last, rfl⟩
    · rw [putOperator_nil]
      split
      · exact .inl rfl
      · exact .inr (Nat.le_refl 0)
    · rw [List.concat_eq_append]
      by_cases replaces : Replaces last c
      · rw [putOperator_concat_of_replaces front replaces]
        exact .inr (by simp)
      · exact .inl (putOperator_concat_of_not_replaces front replaces)
  · rw [put, if_neg isOp]
    exact .inl rfl

/-- A key adds one symbol at most. -/
lemma length_put_le (entry : Text) (c : Char) : (put entry [c]).length ≤ entry.length + 1 := by
  rcases put_cases entry c with appended | short
  · rw [appended, List.length_append, List.length_singleton]
  · exact Nat.le_succ_of_le short

/-- A key appends its symbol unless it is an operator that replaces the last one, or that finds the entry empty and is
no minus. -/
lemma put_eq_concat_iff {entry : Text} {c : Char} : put entry [c] = entry ++ [c] ↔
    (isOperator c = true → (entry = [] → c = '-') ∧ ∀ last ∈ entry.getLast?, ¬ Replaces last c) := by
  by_cases isOp : isOperator c = true
  · rw [put, if_pos isOp]
    rcases List.eq_nil_or_concat entry with rfl | ⟨front, last, rfl⟩
    · by_cases minus : c = '-' <;> simp [putOperator_nil, minus, isOp]
    · rw [List.concat_eq_append]
      by_cases replaces : Replaces last c
      · rw [putOperator_concat_of_replaces front replaces]
        refine iff_of_false (by simp) fun keeps => ?_
        exact (keeps isOp).2 last (by simp) replaces
      · refine iff_of_true (putOperator_concat_of_not_replaces front replaces) fun _ => ⟨by simp, ?_⟩
        intro x isLast
        have same : last = x := by simpa using isLast
        exact same ▸ replaces
  · rw [put, if_neg isOp]
    exact iff_of_true rfl fun isOpC => absurd isOpC isOp

/-! ## Operands to the left -/

/-- The operators of the pad that are no signs: they need an operand to their left. -/
def infixSymbols : Text :=
  ['+', '×', '÷', '%']

/-- Two neighbours, of which the second, when it is an infix operator, has an operand to its left, and when it is a
minus, follows neither a minus nor a point. -/
def Follows (x y : Char) : Prop :=
  (y ∈ infixSymbols → x.isDigit = true ∨ x = ')' ∨ x = '%') ∧ (y = '-' → x ≠ '-' ∧ x ≠ '.')

/-- Whether a symbol may follow another is decided by what the two are. -/
instance : DecidableRel Follows := fun x y =>
  inferInstanceAs (Decidable
    ((y ∈ infixSymbols → x.isDigit = true ∨ x = ')' ∨ x = '%') ∧ (y = '-' → x ≠ '-' ∧ x ≠ '.')))

/-- The text is made of symbols of the pad, its infix operators have operands to their left, and no minus stands behind
a minus or a point. -/
structure Keyable (text : Text) : Prop where
  onPad : ∀ c ∈ text, Key.symbol c ∈ padKeys
  opens : ∀ c ∈ text.head?, c ∉ infixSymbols
  follows : text.IsChain Follows

/-- Two neighbours, of which the second is no infix operator behind a percent sign. -/
def KeepsPercent (x y : Char) : Prop :=
  y ∈ infixSymbols → x ≠ '%'

/-- Whether a percent sign is kept is decided by the next symbol. -/
instance : DecidableRel KeepsPercent := fun x y =>
  inferInstanceAs (Decidable (y ∈ infixSymbols → x ≠ '%'))

/-- The symbols between two values are operators other than minus. -/
lemma isOperator_of_mem_infixSymbols : ∀ c ∈ infixSymbols, isOperator c = true ∧ c ≠ '-' :=
  List.all_iff_forall_prop.mp (by decide)

/-- An operator of the pad stands between two values or is a minus. -/
lemma infix_or_minus {c : Char} (onPad : Key.symbol c ∈ padKeys) (isOp : isOperator c = true) :
    c ∈ infixSymbols ∨ c = '-' := by
  simp only [isOperator, operatorSymbols, List.contains_iff_mem, List.mem_cons, List.not_mem_nil, or_false] at isOp
  rcases isOp with rfl | rfl | rfl | rfl | rfl | rfl | rfl <;> revert onPad <;> decide

/-- No key replaces a digit. -/
lemma not_replaces_of_isDigit {last : Char} (c : Char) (digit : last.isDigit = true) : ¬ Replaces last c := by
  rintro ⟨isOp | rfl, -⟩
  · rw [isOperator_of_isDigit digit] at isOp
    cases isOp
  · cases digit

/-- Where operators have operands to their left, an operator key replaces a percent sign or nothing. -/
lemma not_replaces_iff {last c : Char} (onPad : Key.symbol c ∈ padKeys) (follows : Follows last c) :
    (isOperator c = true → ¬ Replaces last c) ↔ KeepsPercent last c := by
  by_cases isOp : isOperator c = true
  · rcases infix_or_minus onPad isOp with isInfix | rfl
    · rcases follows.1 isInfix with digit | rfl | rfl
      · have notPercent : last ≠ '%' := by
          rintro rfl
          cases digit
        exact iff_of_true (fun _ => not_replaces_of_isDigit c digit) fun _ => notPercent
      · exact iff_of_true (fun _ replaces => absurd replaces.1 (by decide)) fun _ => by decide
      · have notMinus := (isOperator_of_mem_infixSymbols c isInfix).2
        refine iff_of_false (fun keeps => ?_) fun keeps => keeps isInfix rfl
        exact keeps isOp ⟨.inl (by decide), fun minus => absurd minus notMinus⟩
    · refine iff_of_true (fun _ replaces => (follows.2 rfl).1 (replaces.2 rfl)) fun isInfix => ?_
      exact absurd isInfix (by decide)
  · refine iff_of_true (fun isOpC => absurd isOpC isOp) fun isInfix => ?_
    exact absurd (isOperator_of_mem_infixSymbols c isInfix).1 isOp

/-- What can be keyed in can be keyed in up to its last symbol, which may follow there. -/
lemma keyable_concat {front : Text} {c : Char} (keyable : Keyable (front ++ [c])) :
    Keyable front ∧ Key.symbol c ∈ padKeys ∧ (front = [] → c ∉ infixSymbols) ∧
      ∀ last ∈ front.getLast?, Follows last c := by
  obtain ⟨follows, followsLast⟩ := isChain_concat.mp keyable.follows
  have onPad := List.forall_mem_append.mp keyable.onPad
  refine ⟨⟨onPad.1, fun d isHead => ?_, follows⟩, onPad.2 c List.mem_cons_self, ?_, followsLast⟩
  · obtain ⟨rest, rfl⟩ := List.head?_eq_some_iff.mp isHead
    exact keyable.opens d rfl
  · rintro rfl
    exact keyable.opens c rfl

/-- In a text whose operators have operands to their left, a key appends its symbol unless that is an infix operator
behind a percent sign. -/
lemma put_keyable_iff {front : Text} {c : Char} (keyable : Keyable (front ++ [c])) :
    put front [c] = front ++ [c] ↔ ∀ last ∈ front.getLast?, KeepsPercent last c := by
  obtain ⟨-, onPad, opens, follows⟩ := keyable_concat keyable
  rw [put_eq_concat_iff]
  constructor
  · intro keeps last isLast
    exact (not_replaces_iff onPad (follows last isLast)).mp fun isOp => (keeps isOp).2 last isLast
  · intro keeps isOp
    refine ⟨fun empty => ?_, fun last isLast => ?_⟩
    · exact (infix_or_minus onPad isOp).resolve_left (opens empty)
    · exact (not_replaces_iff onPad (follows last isLast)).mpr (keeps last isLast) isOp

end Entry

/-! ## Key after key -/

namespace Panel

/-- The panel after the symbols of a text are pressed, one after the other. -/
def press (p : Panel) (text : Text) : Panel :=
  p.run (text.map fun c => .insert [c])

variable {p : Panel}

/-- Pressing one key more puts its symbol into the entry. -/
lemma entry_press_concat (front : Text) (c : Char) :
    (p.press (front ++ [c])).entry = Entry.put (p.press front).entry [c] := by
  simp [press, run, apply, insert]

/-- An entry is no longer than the keys that were pressed are many. -/
lemma length_entry_press_le (empty : p.entry = []) (text : Text) : (p.press text).entry.length ≤ text.length := by
  induction text using List.reverseRecOn with
  | nil => simp [press, run, empty]
  | append_singleton front c ih =>
    rw [entry_press_concat, List.length_append, List.length_singleton]
    exact Nat.le_trans (Entry.length_put_le _ c) (Nat.succ_le_succ ih)

/-- A symbol that is lost is not made up for: a text is made by its keys only when every front of it is. -/
lemma entry_press_concat_eq_iff (empty : p.entry = []) {front : Text} {c : Char} :
    (p.press (front ++ [c])).entry = front ++ [c] ↔
      (p.press front).entry = front ∧ Entry.put front [c] = front ++ [c] := by
  rw [entry_press_concat]
  constructor
  · intro made
    have short := length_entry_press_le empty front
    -- a key that appends nothing would have found more symbols than keys were pressed
    have front_eq : (p.press front).entry = front := by
      rcases Entry.put_cases (p.press front).entry c with appended | lost
      · rw [appended] at made
        exact (List.append_inj' made rfl).1
      · rw [made, List.length_append, List.length_singleton] at lost
        omega
    rw [front_eq] at made
    exact ⟨front_eq, made⟩
  · rintro ⟨front_eq, appended⟩
    rw [front_eq, appended]

end Panel

/-- Where the infix operators in a text of the pad have operands to their left and no minus stands behind a minus or a
point, pressing its symbols one after the other on an empty entry makes the text exactly when no infix operator stands
behind a percent sign. -/
theorem entry_press_eq_iff {p : Panel} (empty : p.entry = []) {text : Text} (keyable : Entry.Keyable text) :
    (p.press text).entry = text ↔ text.IsChain Entry.KeepsPercent := by
  induction text using List.reverseRecOn with
  | nil => exact iff_of_true empty .nil
  | append_singleton front c ih =>
    rw [Panel.entry_press_concat_eq_iff empty, ih (Entry.keyable_concat keyable).1, Entry.put_keyable_iff keyable,
      Entry.isChain_concat]

/-- A difference of percentages is made by its keys. -/
theorem entry_press_eq_iff_of_percentages :
    (Panel.press {} "200×15%-(2+3)%".toList).entry = "200×15%-(2+3)%".toList := by
  have keyable : Entry.Keyable "200×15%-(2+3)%".toList :=
    ⟨List.all_iff_forall_prop.mp (by decide), by rintro c ⟨⟩; decide, by decide⟩
  exact (entry_press_eq_iff rfl keyable).mpr (by decide)

/-- A tenth of fifty: the multiplication sign replaces the percent sign, and ten times fifty is calculated. -/
theorem entry_press_loses_percent :
    Entry.Keyable "10%×50".toList ∧
      evaluateEntry "10%×50".toList = .ok (Decimal.round .plus ⟨5, 0⟩) ∧
      (Panel.press {} "10%×50".toList).entry = "10×50".toList ∧
      (Panel.press {} "10%×50".toList).entry ≠ "10%×50".toList ∧
      evaluateEntry "10×50".toList = .ok (Decimal.round .plus ⟨500, 0⟩) :=
  ⟨⟨List.all_iff_forall_prop.mp (by decide), by rintro c ⟨⟩; decide, by decide⟩, by decide +kernel, by decide,
    by decide, by decide +kernel⟩

end Calculator
