import Mathlib.Data.List.Chain
import Calculator.Screen
import Calculator.Proofs.Result

/-!
# Entries made on the pad

The pad is meant to keep operators apart: only a minus, as the sign of a right operand, may follow another
operator. An operator key looks at the last symbol alone. Where that is a minus after an operator, or a point
after one, the key replaces it and stands behind the operator itself. Main statement: all entries of a run on
the pad are well spaced exactly when no key is pressed that way (`padEntries_wellSpaced_iff`).
-/

namespace Calculator

namespace Entry

/-- Two neighbours are not both operators, unless the second is a minus and the first is not. -/
def Spaced (x y : Char) : Prop :=
  isOperator x = true → isOperator y = true → y = '-' ∧ x ≠ '-'

/-- No two operators stand next to each other, except for a minus after another operator. -/
def WellSpaced (entry : Text) : Prop :=
  entry.IsChain Spaced

/-- The key would replace a minus or a point that an operator stands before, by an operator that is no sign. -/
def Exposes (entry : Text) (key : Char) : Prop :=
  isOperator key = true ∧ key ≠ '-' ∧
    ∃ before x last, entry = before ++ [x, last] ∧ isOperator x = true ∧ (last = '-' ∨ last = '.')

/-- A chain goes on when its last member and the next are related. -/
lemma isChain_concat {R : Char → Char → Prop} {entry : Text} {c : Char} :
    (entry ++ [c]).IsChain R ↔ entry.IsChain R ∧ ∀ x ∈ entry.getLast?, R x c := by
  simp [List.isChain_append]

/-- A well-spaced entry stays so when the next symbol is spaced from the last one. -/
lemma wellSpaced_concat {entry : Text} {c : Char} :
    WellSpaced (entry ++ [c]) ↔ WellSpaced entry ∧ ∀ x ∈ entry.getLast?, Spaced x c :=
  isChain_concat

/-- Characters that are no operators may stand before a well-spaced text. -/
lemma wellSpaced_append {front text : Text} (plain : ∀ c ∈ front, isOperator c = false)
    (spaced : WellSpaced text) : WellSpaced (front ++ text) := by
  induction front with
  | nil => exact spaced
  | cons c front ih =>
    refine List.isChain_cons.mpr ⟨fun y _ isOp => ?_, ih fun d mem => plain d (List.mem_cons_of_mem c mem)⟩
    rw [plain c List.mem_cons_self] at isOp
    cases isOp

/-- A text without operators is well spaced. -/
lemma wellSpaced_of_plain {text : Text} (plain : ∀ c ∈ text, isOperator c = false) : WellSpaced text := by
  rw [← text.append_nil]
  exact wellSpaced_append plain .nil

/-- A well-spaced text stays so behind any symbol when it starts with no operator. -/
lemma wellSpaced_cons {c : Char} {text : Text} (spaced : WellSpaced text)
    (head : ∀ d ∈ text.head?, isOperator d = false) : WellSpaced (c :: text) := by
  refine List.isChain_cons.mpr ⟨fun y isHead _ isOp => ?_, spaced⟩
  rw [head y isHead] at isOp
  cases isOp

/-- A well-spaced text stays so behind a sign when it starts with no operator. -/
lemma wellSpaced_sign {s : Sign} {text : Text} (spaced : WellSpaced text)
    (head : ∀ c ∈ text.head?, isOperator c = false) : WellSpaced (s.put text) := by
  cases s with
  | plus => exact spaced
  | minus => exact wellSpaced_cons spaced head

/-- Whether a key exposes an operator hangs on the last two symbols. -/
lemma exposes_concat_iff {front : Text} {last key : Char} :
    Exposes (front ++ [last]) key ↔ isOperator key = true ∧ key ≠ '-' ∧
      (∃ x ∈ front.getLast?, isOperator x = true) ∧ (last = '-' ∨ last = '.') := by
  constructor
  · rintro ⟨isOp, notMinus, before, x, other, same, isOpX, lastIs⟩
    have split : front ++ [last] = (before ++ [x]) ++ [other] := by simp [same]
    obtain ⟨rfl, tail⟩ := List.append_inj' split rfl
    cases tail
    exact ⟨isOp, notMinus, ⟨x, by simp, isOpX⟩, lastIs⟩
  · rintro ⟨isOp, notMinus, ⟨x, isLast, isOpX⟩, lastIs⟩
    obtain ⟨before, rfl⟩ := List.getLast?_eq_some_iff.mp isLast
    exact ⟨isOp, notMinus, before, x, last, by simp, isOpX, lastIs⟩

/-- A key other than minus never follows an operator in a well-spaced entry. -/
lemma wellSpaced_concat_operator {entry : Text} {op : Char} (spaced : WellSpaced entry)
    (isOp : isOperator op = true) (notMinus : op ≠ '-') :
    WellSpaced (entry ++ [op]) ↔ ¬ ∃ x ∈ entry.getLast?, isOperator x = true := by
  rw [wellSpaced_concat]
  constructor
  · rintro ⟨-, apart⟩ ⟨x, isLast, isOpX⟩
    exact notMinus (apart x isLast isOpX isOp).1
  · intro noOperator
    exact ⟨spaced, fun x isLast isOpX _ => absurd ⟨x, isLast, isOpX⟩ noOperator⟩

/-- The minus key keeps an entry well spaced. -/
lemma wellSpaced_putOperator_minus {entry : Text} (spaced : WellSpaced entry) :
    WellSpaced (putOperator entry '-') := by
  rcases List.eq_nil_or_concat entry with rfl | ⟨front, last, rfl⟩
  · exact .singleton '-'
  · rw [List.concat_eq_append] at spaced ⊢
    by_cases minus : last = '-'
    · subst minus
      simpa [putOperator, isOperator, operatorSymbols] using spaced
    · have appended : putOperator (front ++ [last]) '-' = front ++ [last] ++ ['-'] := by
        simp [putOperator, minus]
      rw [appended, wellSpaced_concat]
      refine ⟨spaced, fun x isLast _ _ => ⟨rfl, ?_⟩⟩
      have same : last = x := by simpa using isLast
      exact same ▸ minus

/-- An operator key other than minus keeps an entry well spaced unless it exposes an operator. -/
lemma wellSpaced_putOperator_iff {entry : Text} {op : Char} (spaced : WellSpaced entry)
    (isOp : isOperator op = true) (notMinus : op ≠ '-') :
    WellSpaced (putOperator entry op) ↔ ¬ Exposes entry op := by
  rcases List.eq_nil_or_concat entry with rfl | ⟨front, last, rfl⟩
  · have empty : ¬ Exposes [] op := by
      rintro ⟨-, -, before, x, last, same, -⟩
      simp at same
    have put : putOperator [] op = [] := by simp [putOperator, notMinus]
    rw [put]
    exact ⟨fun _ => empty, fun _ => .nil⟩
  · rw [List.concat_eq_append] at spaced ⊢
    obtain ⟨spacedFront, apart⟩ := wellSpaced_concat.mp spaced
    rw [exposes_concat_iff]
    by_cases replaced : isOperator last = true ∨ last = '.'
    · -- a last operator that is not a minus has no operator before it
      have lastIs : (∃ x ∈ front.getLast?, isOperator x = true) → last = '-' ∨ last = '.' := by
        rintro ⟨x, isLast, isOpX⟩
        rcases replaced with isOpLast | point
        · exact .inl (apart x isLast isOpX isOpLast).1
        · exact .inr point
      have put : putOperator (front ++ [last]) op = front ++ [op] := by
        simp [putOperator, notMinus, replaced]
      rw [put, wellSpaced_concat_operator spacedFront isOp notMinus, not_iff_not]
      exact ⟨fun before => ⟨isOp, notMinus, before, lastIs before⟩, fun exposes => exposes.2.2.1⟩
    · obtain ⟨plain, notPoint⟩ := not_or.mp replaced
      have put : putOperator (front ++ [last]) op = front ++ [last] ++ [op] := by
        simp [putOperator, plain, notPoint]
      rw [put, wellSpaced_concat_operator spaced isOp notMinus]
      have minus : isOperator '-' = true := by decide
      constructor
      · rintro - ⟨-, -, -, rfl | rfl⟩
        · exact plain minus
        · exact notPoint rfl
      · rintro - ⟨x, isLast, isOpX⟩
        have same : last = x := by simpa using isLast
        exact plain (same ▸ isOpX)

/-- A key keeps an entry well spaced unless it exposes an operator. -/
lemma wellSpaced_put_iff {entry : Text} {c : Char} (spaced : WellSpaced entry) :
    WellSpaced (put entry [c]) ↔ ¬ Exposes entry c := by
  by_cases isOp : isOperator c = true
  · rw [put, if_pos isOp]
    by_cases minus : c = '-'
    · subst minus
      exact ⟨fun _ exposes => exposes.2.1 rfl, fun _ => wellSpaced_putOperator_minus spaced⟩
    · exact wellSpaced_putOperator_iff spaced isOp minus
  · rw [put, if_neg isOp]
    refine ⟨fun _ exposes => isOp exposes.1, fun _ => wellSpaced_concat.mpr ⟨spaced, ?_⟩⟩
    exact fun _ _ _ isOpC => absurd isOpC isOp

end Entry

/-- No operator starts a numeral. -/
lemma isOperator_of_startsNumeral {c : Char} (starts : Lexer.startsNumeral c = true) :
    isOperator c = false := by
  by_contra isOp
  simp only [isOperator, operatorSymbols, Bool.not_eq_false, List.contains_iff_mem, List.mem_cons,
    List.not_mem_nil, or_false] at isOp
  rcases isOp with rfl | rfl | rfl | rfl | rfl | rfl | rfl <;> cases starts

/-- No digit is an operator. -/
lemma isOperator_of_isDigit {c : Char} (digit : c.isDigit = true) : isOperator c = false :=
  isOperator_of_startsNumeral (Bool.or_eq_true_iff.mpr (.inl digit))

/-- An exponent is well spaced: its sign stands between its mark and a digit. -/
lemma Exponent.wellSpaced_text (e : Exponent) : Entry.WellSpaced e.text := by
  have digits : ∀ c ∈ e.digits, isOperator c = false := fun c mem => isOperator_of_isDigit (e.isDigit c mem)
  have spaced := Entry.wellSpaced_of_plain digits
  have mark : ∀ c ∈ [e.mark], isOperator c = false := by
    intro c mem
    rw [List.mem_singleton.mp mem]
    rcases e.isMark with mark | mark
    · rw [mark]
      decide
    · rw [mark]
      decide
  refine Entry.wellSpaced_append mark ?_
  unfold signText
  cases e.sign with
  | none => exact spaced
  | some s => exact Entry.wellSpaced_cons spaced fun c isHead => digits c (List.mem_of_mem_head? isHead)

/-- A numeral is well spaced, and starts with no operator. -/
lemma Numeral.wellSpaced_text (n : Numeral) :
    Entry.WellSpaced n.text ∧ ∀ c ∈ n.text.head?, isOperator c = false := by
  constructor
  · have whole : ∀ c ∈ n.whole, isOperator c = false :=
      fun c mem => isOperator_of_isDigit (n.isDigit c mem)
    have point : ∀ c ∈ n.pointText, isOperator c = false := by
      unfold pointText
      cases places : n.places with
      | none => simp
      | some text =>
        intro c mem
        rcases List.mem_cons.mp mem with rfl | mem
        · decide
        · exact isOperator_of_isDigit (n.isPlace text places c mem)
    have exponent : Entry.WellSpaced n.exponentText := by
      unfold exponentText
      cases n.exponent with
      | none => exact .nil
      | some e => exact e.wellSpaced_text
    exact Entry.wellSpaced_append whole (Entry.wellSpaced_append point exponent)
  · obtain ⟨c, tail, split, starts⟩ := n.exists_text_eq_cons
    rw [split]
    rintro d ⟨⟩
    exact isOperator_of_startsNumeral starts

/-- A result is well spaced: a minus stands before no operator, another sign after the exponent mark. -/
lemma Binary64.wellSpaced_resultText (v : Binary64) : Entry.WellSpaced v.resultText := by
  cases v with
  | nan =>
    have plain : ∀ c ∈ ['n', 'a', 'n'], isOperator c = false := by simp [isOperator, operatorSymbols]
    exact Entry.wellSpaced_of_plain plain
  | infinite s =>
    have plain : ∀ c ∈ ['i', 'n', 'f'], isOperator c = false := by simp [isOperator, operatorSymbols]
    exact Entry.wellSpaced_sign (Entry.wellSpaced_of_plain plain) fun c isHead =>
      plain c (List.mem_of_mem_head? isHead)
  | finite s m =>
    obtain ⟨t, n, written, -⟩ := Binary64.exists_numeral (v := finite s m) rfl
    rw [written]
    exact Entry.wellSpaced_sign n.wellSpaced_text.1 n.wellSpaced_text.2

/-- What a user does on the pad: pressing one of its keys, or the key that calculates. -/
inductive PadGesture where
  | press (key : Key) (onPad : key ∈ padKeys)
  | calculate

namespace PadGesture

/-- The action of a gesture on the pad. -/
def action : PadGesture → Panel.Action
  | press key _ => key.action
  | calculate => .calculate

/-- The gesture presses a key that exposes an operator of the entry. -/
def Exposes (entry : Text) : PadGesture → Prop
  | press (.symbol c) _ => Entry.Exposes entry c
  | _ => False

end PadGesture

/-- The entry after gestures on the pad, from the start. -/
def padEntry (gestures : List PadGesture) : Text :=
  (Panel.run {} (gestures.map PadGesture.action)).entry

/-- A property of the empty entry that a gesture keeps exactly when it does no harm: all entries of a run on the pad
have it exactly when no gesture of the run does harm. -/
lemma padEntries_iff {P : Text → Prop} {harms : Text → PadGesture → Prop} (start : P [])
    (step : ∀ (g : PadGesture) (p : Panel), P p.entry → (P (p.apply g.action).entry ↔ ¬ harms p.entry g))
    (gestures : List PadGesture) :
    (∀ past, past <+: gestures → P (padEntry past)) ↔
      ∀ past g, past ++ [g] <+: gestures → ¬ harms (padEntry past) g := by
  have concat (past : List PadGesture) (g : PadGesture) (holds : P (padEntry past)) :
      P (padEntry (past ++ [g])) ↔ ¬ harms (padEntry past) g := by
    have last := step g (Panel.run {} (past.map PadGesture.action)) holds
    simpa [padEntry, Panel.run] using last
  constructor
  · intro keeps past g within
    have before := keeps past ((List.prefix_append past [g]).trans within)
    exact (concat past g before).mp (keeps _ within)
  · intro harmless past within
    induction past using List.reverseRecOn with
    | nil => exact start
    | append_singleton past g ih =>
      have before := ih ((List.prefix_append past [g]).trans within)
      exact (concat past g before).mpr (harmless past g within)

/-- A calculation leaves the entry alone or puts a result into it. -/
lemma Panel.entry_calculate (p : Panel) :
    p.calculate.entry = p.entry ∨ ∃ v : Binary64, p.calculate.entry = v.resultText := by
  unfold calculate
  split
  · exact .inl rfl
  · split
    · exact .inr ⟨_, rfl⟩
    · exact .inl rfl

/-- A gesture keeps an entry well spaced unless it exposes an operator. -/
lemma PadGesture.wellSpaced_iff (g : PadGesture) {p : Panel} (spaced : Entry.WellSpaced p.entry) :
    Entry.WellSpaced (p.apply g.action).entry ↔ ¬ g.Exposes p.entry := by
  cases g with
  | press key onPad =>
    cases key with
    | symbol c => exact Entry.wellSpaced_put_iff spaced
    | clear => exact ⟨fun _ => id, fun _ => .nil⟩
    | backspace => exact ⟨fun _ => id, fun _ => List.IsChain.dropLast spaced⟩
  | calculate =>
    refine ⟨fun _ => id, fun _ => ?_⟩
    rcases p.entry_calculate with same | ⟨v, result⟩
    · exact same ▸ spaced
    · exact result ▸ v.wellSpaced_resultText

/-- All entries of a run on the pad are well spaced exactly when no key is pressed that exposes an operator. -/
theorem padEntries_wellSpaced_iff (gestures : List PadGesture) :
    (∀ past, past <+: gestures → Entry.WellSpaced (padEntry past)) ↔
      ∀ past g, past ++ [g] <+: gestures → ¬ g.Exposes (padEntry past) :=
  padEntries_iff .nil (fun g _ spaced => g.wellSpaced_iff spaced) gestures

/-- The keys 5, ×, - and × leave two multiplication signs next to each other, which are read as a power. -/
theorem padEntry_doubles_times :
    let gestures : List PadGesture := [.press (.symbol '5') (by decide), .press (.symbol '×') (by decide),
      .press (.symbol '-') (by decide), .press (.symbol '×') (by decide)]
    padEntry gestures = "5××".toList ∧ ¬ Entry.WellSpaced (padEntry gestures) ∧
      canonical (padEntry gestures) = "5**".toList := by
  have entry : padEntry [.press (.symbol '5') (by decide), .press (.symbol '×') (by decide),
      .press (.symbol '-') (by decide), .press (.symbol '×') (by decide)] = ['5', '×', '×'] := by
    decide
  refine ⟨entry, ?_, by decide⟩
  intro spaced
  rw [entry] at spaced
  cases spaced with
  | cons_cons _ rest =>
    cases rest with
    | cons_cons apart _ => exact absurd (apart (by decide) (by decide)).1 (by decide)

end Calculator
