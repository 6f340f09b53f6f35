import Calculator.Proofs.Pad

/-!
# The first symbol of an entry

The pad is meant to start no entry with an operator other than a minus. An operator key that finds the entry empty
is held to that; one that replaces the only symbol of the entry is not, so that a lone minus or a lone point lets
any operator into the first place. Main statement: all entries of a run on the pad are led well exactly when no
key is pressed that way (`padEntries_ledWell_iff`).
-/

namespace Calculator

namespace Entry

/-- The entry is empty, or its first symbol is no operator other than a minus. -/
def LedWell (entry : Text) : Prop :=
  ∀ c ∈ entry.head?, isOperator c = true → c = '-'

/-- The key would replace the only symbol of the entry, a minus or a point, by an operator that is no sign. -/
def Unseats (entry : Text) (key : Char) : Prop :=
  isOperator key = true ∧ key ≠ '-' ∧ (entry = ['-'] ∨ entry = ['.'])

/-- The empty entry is led well. -/
lemma ledWell_nil : LedWell [] := by
  simp [LedWell]

/-- An entry is led well when it starts with no operator but minus. -/
lemma ledWell_cons {c : Char} {rest : Text} : LedWell (c :: rest) ↔ (isOperator c = true → c = '-') := by
  simp [LedWell]

/-- A text that starts with no operator is led well, also with a sign before it. -/
lemma ledWell_put {s : Sign} {text : Text} (head : ∀ c ∈ text.head?, isOperator c = false) :
    LedWell (s.put text) := by
  cases s with
  | plus =>
    intro c isHead isOp
    rw [head c isHead] at isOp
    cases isOp
  | minus => exact ledWell_cons.mpr fun _ => rfl

/-- Only the first of several symbols counts. -/
lemma ledWell_concat {front : Text} {c : Char} :
    LedWell (front ++ [c]) ↔ LedWell front ∧ (front = [] → isOperator c = true → c = '-') := by
  cases front with
  | nil =>
    constructor
    · exact fun led => ⟨ledWell_nil, fun _ => ledWell_cons.mp led⟩
    · exact fun led => ledWell_cons.mpr (led.2 rfl)
  | cons x rest => simp [ledWell_cons]

/-- An entry stays led well when its last symbol is removed. -/
lemma ledWell_dropLast {entry : Text} (led : LedWell entry) : LedWell entry.dropLast := by
  rcases List.eq_nil_or_concat entry with rfl | ⟨front, last, rfl⟩
  · exact led
  · rw [List.concat_eq_append] at led ⊢
    rw [List.dropLast_concat]
    exact (ledWell_concat.mp led).1

/-- A key unseats the first symbol when it is an operator other than minus and that symbol, a minus or a point, is
alone. -/
lemma unseats_concat_iff {front : Text} {last key : Char} :
    Unseats (front ++ [last]) key ↔
      isOperator key = true ∧ key ≠ '-' ∧ front = [] ∧ (last = '-' ∨ last = '.') := by
  cases front with
  | nil => simp [Unseats]
  | cons x rest => simp [Unseats]

/-! ## Operator keys -/

/-- The key takes the place of the last symbol: an operator or a point, except that a minus only replaces a minus. -/
def Replaces (last op : Char) : Prop :=
  (isOperator last = true ∨ last = '.') ∧ (op = '-' → last = '-')

/-- Of the operators only minus starts an entry. -/
lemma putOperator_nil (op : Char) : putOperator [] op = if op = '-' then [op] else [] :=
  rfl

/-- An operator that replaces the last symbol takes its place. -/
lemma putOperator_concat_of_replaces (front : Text) {last op : Char} (replaces : Replaces last op) :
    putOperator (front ++ [last]) op = front ++ [op] := by
  simpa [putOperator, Replaces] using replaces

/-- An operator that does not replace the last symbol is put behind it. -/
lemma putOperator_concat_of_not_replaces (front : Text) {last op : Char} (keeps : ¬ Replaces last op) :
    putOperator (front ++ [last]) op = front ++ [last] ++ [op] := by
  simpa [putOperator, Replaces] using keeps

/-- An operator key keeps an entry led well unless it unseats the first symbol. -/
lemma ledWell_putOperator_iff {entry : Text} {op : Char} (led : LedWell entry) (isOp : isOperator op = true) :
    LedWell (putOperator entry op) ↔ ¬ Unseats entry op := by
  rcases List.eq_nil_or_concat entry with rfl | ⟨front, last, rfl⟩
  · have empty : ¬ Unseats [] op := by simp [Unseats]
    refine iff_of_true ?_ empty
    rw [putOperator_nil]
    split
    · rename_i minus
      exact ledWell_cons.mpr fun _ => minus
    · exact ledWell_nil
  · rw [List.concat_eq_append] at led ⊢
    obtain ⟨ledFront, lastIsMinus⟩ := ledWell_concat.mp led
    rw [unseats_concat_iff]
    by_cases replaces : Replaces last op
    · rw [putOperator_concat_of_replaces front replaces, ledWell_concat]
      constructor
      · rintro ⟨-, isMinus⟩ ⟨-, notMinus, empty, -⟩
        exact notMinus (isMinus empty isOp)
      · intro sound
        refine ⟨ledFront, fun empty _ => ?_⟩
        by_contra notMinus
        -- the only symbol of an entry that is led well is no operator but a minus
        have lastIs : last = '-' ∨ last = '.' := replaces.1.imp_left (lastIsMinus empty)
        exact sound ⟨isOp, notMinus, empty, lastIs⟩
    · rw [putOperator_concat_of_not_replaces front replaces]
      refine iff_of_true (ledWell_concat.mpr ⟨led, fun empty => absurd empty (by simp)⟩) ?_
      rintro ⟨-, notMinus, -, lastIs⟩
      have replaced : isOperator last = true ∨ last = '.' := by
        rcases lastIs with rfl | rfl
        · exact .inl (by decide)
        · exact .inr rfl
      exact replaces ⟨replaced, fun minus => absurd minus notMinus⟩

/-- A key keeps an entry led well unless it unseats the first symbol. -/
lemma ledWell_put_iff {entry : Text} {c : Char} (led : LedWell entry) :
    LedWell (put entry [c]) ↔ ¬ Unseats entry c := by
  by_cases isOp : isOperator c = true
  · rw [put, if_pos isOp]
    exact ledWell_putOperator_iff led isOp
  · rw [put, if_neg isOp]
    exact iff_of_true (ledWell_concat.mpr ⟨led, fun _ isOpC => absurd isOpC isOp⟩) fun unseats => isOp unseats.1

end Entry

/-- A result starts with a digit, a letter or a minus. -/
lemma Binary64.ledWell_resultText (v : Binary64) : Entry.LedWell v.resultText := by
  cases v with
  | nan => exact Entry.ledWell_put (s := .plus) (by simp [isOperator, operatorSymbols])
  | infinite s => exact Entry.ledWell_put (by simp [isOperator, operatorSymbols])
  | finite s m =>
    obtain ⟨t, n, written, -⟩ := Binary64.exists_numeral (v := finite s m) rfl
    rw [written]
    exact Entry.ledWell_put n.wellSpaced_text.2

/-- The gesture presses a key that unseats the first symbol of the entry. -/
def PadGesture.Unseats (entry : Text) : PadGesture → Prop
  | press (.symbol c) _ => Entry.Unseats entry c
  | _ => False

/-- A gesture keeps an entry led well unless it unseats the first symbol. -/
lemma PadGesture.ledWell_iff (g : PadGesture) {p : Panel} (led : Entry.LedWell p.entry) :
    Entry.LedWell (p.apply g.action).entry ↔ ¬ g.Unseats p.entry := by
  cases g with
  | press key onPad =>
    cases key with
    | symbol c => exact Entry.ledWell_put_iff led
    | clear => exact iff_of_true Entry.ledWell_nil id
    | backspace => exact iff_of_true (Entry.ledWell_dropLast led) id
  | calculate =>
    refine iff_of_true ?_ id
    rcases p.entry_calculate with same | ⟨v, result⟩
    · exact same ▸ led
    · exact result ▸ v.ledWell_resultText

/-- All entries of a run on the pad are led well exactly when no key is pressed that unseats the first symbol. -/
theorem padEntries_ledWell_iff (gestures : List PadGesture) :
    (∀ past, past <+: gestures → Entry.LedWell (padEntry past)) ↔
      ∀ past g, past ++ [g] <+: gestures → ¬ g.Unseats (padEntry past) :=
  padEntries_iff Entry.ledWell_nil (fun g _ led => g.ledWell_iff led) gestures

/-- The keys - and × leave a multiplication sign alone in the entry. -/
theorem padEntry_starts_with_times :
    let gestures : List PadGesture := [.press (.symbol '-') (by decide), .press (.symbol '×') (by decide)]
    padEntry gestures = ['×'] ∧ ¬ Entry.LedWell (padEntry gestures) := by
  have entry : padEntry [.press (.symbol '-') (by decide), .press (.symbol '×') (by decide)] = ['×'] := by
    decide
  refine ⟨entry, ?_⟩
  rw [entry, Entry.ledWell_cons]
  decide

end Calculator
