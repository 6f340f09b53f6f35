import Mathlib.Algebra.Ring.Parity
import Mathlib.Data.List.Induction
import Mathlib.Data.List.Infix
import Calculator.Proofs.Pad.Lead
import Calculator.Proofs.Panel
import Calculator.Proofs.Screen.Frames

/-!
# What the screen shows

A session is a screen from its beginning on, with gestures one after another. What it shows is told by a panel of
its own that the gestures drive (`driven`): each is translated to actions, for which it matters whether the field is
active, and that hangs on the last gesture that moved the focus alone. The lines below the keys are said in full
(`ErrorLines`, `SectionLines`). No letter x is ever shown: keys and results have none, and what is typed has its own
replaced. Main statement: `screen_shows_driven_panel`.
-/

namespace Calculator

/-! ## Letters x -/

/-- The entry has no letter x, small or large. -/
def Entry.NoX (entry : Text) : Prop :=
  ∀ c ∈ entry, c ≠ 'x' ∧ c ≠ 'X'

namespace Entry

variable {entry : Text}

/-- An entry without a letter x stays as it is when it is typed. -/
lemma fromKeyboard_of_noX (noX : NoX entry) : fromKeyboard entry = entry := by
  have kept : ∀ c ∈ entry, multiplicationSign c = c := fun c mem => if_neg (not_or.mpr (noX c mem))
  exact (List.map_congr_left kept).trans (List.map_id entry)

/-- What is typed has its letters x replaced. -/
lemma noX_fromKeyboard (entry : Text) : NoX (fromKeyboard entry) := by
  intro c mem
  obtain ⟨d, -, rfl⟩ := List.mem_map.mp mem
  unfold multiplicationSign
  split
  · exact ⟨by decide, by decide⟩
  · rename_i other
    exact not_or.mp other

/-- A key adds no symbol but its own. -/
lemma mem_put {c d : Char} (mem : d ∈ put entry [c]) : d ∈ entry ∨ d = c := by
  by_cases isOp : isOperator c = true
  · rw [put, if_pos isOp] at mem
    rcases List.eq_nil_or_concat entry with rfl | ⟨front, last, rfl⟩
    · rw [putOperator_nil] at mem
      split at mem
      · exact .inr (List.mem_singleton.mp mem)
      · cases mem
    · rw [List.concat_eq_append] at mem ⊢
      by_cases replaces : Replaces last c
      · rw [putOperator_concat_of_replaces front replaces] at mem
        exact (List.mem_append.mp mem).imp (List.mem_append_left [last]) List.mem_singleton.mp
      · rw [putOperator_concat_of_not_replaces front replaces] at mem
        exact (List.mem_append.mp mem).imp id List.mem_singleton.mp
  · rw [put, if_neg isOp] at mem
    exact (List.mem_append.mp mem).imp id List.mem_singleton.mp

/-- A key that is no letter x brings none. -/
lemma NoX.put {c : Char} (noX : NoX entry) (plain : c ≠ 'x' ∧ c ≠ 'X') :
    NoX (put entry [c]) := by
  intro d mem
  rcases mem_put mem with before | rfl
  · exact noX d before
  · exact plain

/-- Removing the last symbol brings no letter x. -/
lemma NoX.dropLast (noX : NoX entry) : NoX entry.dropLast :=
  fun c mem => noX c (List.mem_of_mem_dropLast mem)

end Entry

/-- No key of the pad is a letter x. -/
lemma Key.noX_of_onPad {c : Char} (onPad : symbol c ∈ padKeys) : c ≠ 'x' ∧ c ≠ 'X' := by
  constructor
  · rintro rfl
    exact absurd onPad (by decide)
  · rintro rfl
    exact absurd onPad (by decide)

/-- No letter x is in a numeral. -/
lemma Numeral.noX_text (n : Numeral) : Entry.NoX n.text := by
  have marks : ∀ c ∈ numeralMarks, c ≠ 'x' ∧ c ≠ 'X' := by simp [numeralMarks]
  intro c mem
  rcases n.char_of_mem_text mem with digit | mark
  · constructor
    · rintro rfl
      cases digit
    · rintro rfl
      cases digit
  · exact marks c mark

/-- A sign brings no letter x. -/
lemma Entry.noX_sign {s : Sign} {text : Text} (noX : NoX text) : NoX (s.put text) := by
  cases s with
  | plus => exact noX
  | minus => exact List.forall_mem_cons.mpr ⟨⟨by decide, by decide⟩, noX⟩

/-- No letter x is in a result. -/
lemma Binary64.noX_resultText (v : Binary64) : Entry.NoX v.resultText := by
  have words : Entry.NoX ['n', 'a', 'n'] ∧ Entry.NoX ['i', 'n', 'f'] := by
    simp [Entry.NoX]
  cases v with
  | nan => exact words.1
  | infinite s => exact Entry.noX_sign words.2
  | finite s m =>
    obtain ⟨t, n, written, -⟩ := exists_numeral (v := finite s m) rfl
    rw [written]
    exact Entry.noX_sign n.noX_text

/-- The actions of a gesture bring no letter x into an entry without one. -/
lemma Gesture.noX_run {g : Gesture} {p : Panel} (active : Bool) (onPad : ∀ key, g = .press key → key ∈ padKeys)
    (noX : Entry.NoX p.entry) : Entry.NoX (p.run (g.actions active p.entry)).entry := by
  have calculated : Entry.NoX p.calculate.entry := by
    rcases p.entry_calculate with same | ⟨v, result⟩
    · exact same ▸ noX
    · exact result ▸ v.noX_resultText
  cases g with
  | press key =>
    cases key with
    | symbol c => exact noX.put (Key.noX_of_onPad (onPad (.symbol c) rfl))
    | clear => exact List.forall_mem_nil _
    | backspace => exact noX.dropLast
  | pressCalculate => exact calculated
  | type typed =>
    cases active with
    | false => exact noX
    | true => exact Entry.noX_fromKeyboard (p.entry ++ typed)
  | enter =>
    cases active with
    | false => exact noX
    | true => exact calculated
  | escape => exact List.forall_mem_nil _
  | wait | clickHeader | clickField => exact noX

/-! ## The panel that gestures drive -/

/-- Whether the field has the focus after gestures: the last of them that moved it was no click on the header. -/
def fieldActive (gestures : List Gesture) : Bool :=
  decide ((gestures.filter Gesture.movesFocus).getLast? ≠ some .clickHeader)

/-- Whether the section is open after gestures: its header has been clicked an odd number of times. -/
def sectionOpen (gestures : List Gesture) : Bool :=
  decide (Odd (gestures.count .clickHeader))

/-- The panel after the actions that gestures stand for, each depending on the gestures before it. -/
def drive (past : List Gesture) (p : Panel) : List Gesture → Panel
  | [] => p
  | g :: rest => drive (past ++ [g]) (p.run (g.actions (fieldActive past) p.entry)) rest

/-- The panel that gestures drive from its beginning. -/
def driven (gestures : List Gesture) : Panel :=
  drive [] {} gestures

section

variable {gestures : List Gesture} {g : Gesture}

/-- One more gesture decides about the focus if it moves it, and only then. -/
lemma fieldActive_concat :
    fieldActive (gestures ++ [g]) = if g.movesFocus then decide (g ≠ .clickHeader) else fieldActive gestures := by
  cases moves : g.movesFocus with
  | false => simp [fieldActive, moves]
  | true => simp [fieldActive, moves]

/-- One more gesture opens or closes the section if it clicks the header, and only then. -/
lemma sectionOpen_concat :
    sectionOpen (gestures ++ [g]) = if g = .clickHeader then !sectionOpen gestures else sectionOpen gestures := by
  by_cases header : g = .clickHeader
  · simp [sectionOpen, header, Nat.odd_add_one, -Nat.not_odd_iff_even]
  · simp [sectionOpen, header]

/-- One more gesture drives the panel that the gestures before it have driven. -/
lemma drive_concat (past : List Gesture) (p : Panel) :
    drive past p (gestures ++ [g]) =
      (drive past p gestures).run (g.actions (fieldActive (past ++ gestures)) (drive past p gestures).entry) := by
  induction gestures generalizing past p with
  | nil => simp [drive]
  | cons h gestures ih => simp [drive, ih]

/-- One more gesture drives the panel on, depending on the focus that the gestures before it leave. -/
lemma driven_concat :
    driven (gestures ++ [g]) =
      (driven gestures).run (g.actions (fieldActive gestures) (driven gestures).entry) :=
  drive_concat [] {}

end

namespace Panel

/-- Whether the focus is wanted makes no difference to a calculation. -/
lemma calculate_dropFocus (p : Panel) : (p.apply .dropFocus).calculate = p.calculate := by
  by_cases blank : p.entry.trim = []
  · rw [calculate_of_blank blank]
    exact calculate_of_blank (p := p.apply .dropFocus) blank
  · cases result : p.outcome with
    | ok r =>
      rw [calculate_of_ok blank result]
      exact calculate_of_ok (p := p.apply .dropFocus) blank result
    | error e =>
      rw [calculate_of_error blank result]
      exact calculate_of_error (p := p.apply .dropFocus) blank result

/-- Whether the focus is wanted before an action makes no difference to anything else after it. -/
lemma apply_dropFocus (p : Panel) (a : Action) :
    ((p.apply .dropFocus).apply a).apply .dropFocus = (p.apply a).apply .dropFocus := by
  cases a with
  | calculate => exact congrArg (·.apply .dropFocus) p.calculate_dropFocus
  | _ => rfl

/-- Whether the focus is wanted before some actions makes no difference to anything else after them. -/
lemma run_dropFocus (p : Panel) (actions : List Action) :
    ((p.apply .dropFocus).run actions).apply .dropFocus = (p.run actions).apply .dropFocus := by
  induction actions using List.reverseRecOn with
  | nil => rfl
  | append_singleton actions a ih =>
    rw [run_concat, run_concat, ← apply_dropFocus, ih, apply_dropFocus]

end Panel

/-! ## Lines -/

/-- The lines that an error is shown in: one with its message, and none when there is no error. -/
inductive ErrorLines : Option CalcError → List String → Prop where
  | none :
    ErrorLines none []
  | divisionByZero :
    ErrorLines (some .divisionByZero) ["Math Error: division by zero"]
  | invalidExpression :
    ErrorLines (some .invalidExpression) ["Input Error: invalid input"]

/-- The lines that a section shows, open or not: when it is open, the four texts of the trace, or a dash when there is
no trace. -/
inductive SectionLines : Bool → Option Trace → List String → Prop where
  | closed {trace} :
    SectionLines false trace []
  | absent :
    SectionLines true none ["—"]
  | present {trace : Trace} :
    SectionLines true (some trace)
      ["Canonique : " ++ String.ofList trace.canonical, "Jetons    : " ++ String.ofList trace.tokens,
        "RPN       : " ++ String.ofList trace.postorder, "Arbre     : " ++ String.ofList trace.tree]

/-- The message of the error is shown, and nothing when there is none. -/
lemma Panel.errorLines (p : Panel) : ErrorLines p.error p.errorMessage.toList := by
  rw [errorMessage]
  cases p.error with
  | none => exact .none
  | some e =>
    cases e with
    | divisionByZero => exact .divisionByZero
    | invalidExpression => exact .invalidExpression

/-- The trace is shown in an open section. -/
lemma sectionLines (isOpen : Bool) (trace : Option Trace) :
    SectionLines isOpen trace (if isOpen then Screen.traceLines trace else []) := by
  cases isOpen with
  | false => exact .closed
  | true =>
    cases trace with
    | none => exact .absent
    | some trace => exact .present

/-! ## Sessions -/

/-- The screen from its beginning on, with gestures one after another. -/
inductive Session : List Gesture → Screen → Prop where
  | start {s} :
    Screen.Passes [] {} s →
    Session [] s
  | gesture {gestures s g t} :
    Session gestures s →
    Screen.Passes g.inputs s t →
    Session (gestures ++ [g]) t

/-- The screen shows the panel that the gestures drive, but for the focus that the panel may still want: the field has
the focus as the gestures say, or gets it in the next frame. The section is open as they say, the lines shown are the
message of the error, the header, and the trace or a dash in an open section, and there is no letter x. -/
structure Shows (gestures : List Gesture) (s : Screen) : Prop where
  entry : s.panel.entry = (driven gestures).entry
  panel : s.panel.apply .dropFocus = (driven gestures).apply .dropFocus
  active : (s.active || s.panel.wantsFocus) = fieldActive gestures
  activated : ∀ t, Screen.Step .nothing s t → t.active = fieldActive gestures
  traceOpen : s.traceOpen = sectionOpen gestures
  lines : ∃ above below, ErrorLines (driven gestures).error above ∧
    SectionLines (sectionOpen gestures) (driven gestures).trace below ∧ s.lines = above ++ "Démarche" :: below
  noX : Entry.NoX s.panel.entry

/-- The screen at rest that gestures lead to. -/
def drivenScreen (gestures : List Gesture) : Screen :=
  ⟨(driven gestures).apply .dropFocus, fieldActive gestures, sectionOpen gestures⟩

section

variable {gestures : List Gesture} {s : Screen} {g : Gesture}

/-- Gestures bring no letter x into the panel that they drive. -/
lemma noX_driven (onPad : ∀ key, .press key ∈ gestures → key ∈ padKeys) : Entry.NoX (driven gestures).entry := by
  induction gestures using List.reverseRecOn with
  | nil => exact List.forall_mem_nil _
  | append_singleton gestures g ih =>
    rw [driven_concat]
    refine Gesture.noX_run _ ?_ (ih fun key mem => onPad key (List.mem_append_left _ mem))
    rintro key rfl
    exact onPad key (List.mem_append_right _ List.mem_cons_self)

/-- A gesture leads on from the screen that the gestures before it lead to. -/
lemma drivenScreen_concat : drivenScreen (gestures ++ [g]) = (drivenScreen gestures).done g := by
  have entry : ((driven gestures).apply .dropFocus).entry = (driven gestures).entry := rfl
  rw [drivenScreen, Screen.done, drivenScreen, driven_concat, fieldActive_concat, sectionOpen_concat]
  simp only [entry, Panel.run_dropFocus]

/-- A screen that comes to rest as the gestures say shows the panel that they drive. -/
lemma Shows.of_atRest (atRest : s.atRest = drivenScreen gestures) (noX : Entry.NoX (driven gestures).entry) :
    Shows gestures s := by
  have panel : s.panel.apply .dropFocus = (driven gestures).apply .dropFocus := congrArg Screen.panel atRest
  have active : (s.active || s.panel.wantsFocus) = fieldActive gestures := congrArg Screen.active atRest
  have traceOpen : s.traceOpen = sectionOpen gestures := congrArg Screen.traceOpen atRest
  have error : s.panel.error = (driven gestures).error := (congrArg Panel.error panel :)
  have trace : s.panel.trace = (driven gestures).trace := (congrArg Panel.trace panel :)
  have entry : s.panel.entry = (driven gestures).entry := (congrArg Panel.entry panel :)
  refine ⟨entry, panel, active, fun t step => ?_, traceOpen, ?_, entry ▸ noX⟩
  · rw [step.nothing]
    exact active
  · rw [← error, ← trace]
    refine ⟨_, _, s.panel.errorLines, sectionLines (sectionOpen gestures) s.panel.trace, ?_⟩
    rw [Screen.lines, traceOpen, List.append_assoc]
    rfl

end

namespace Session

variable {gestures : List Gesture} {s : Screen}

/-- With the toolkit at hand there is a session for any gestures. -/
lemma foldl_after (gestures : List Gesture) : Session gestures (gestures.foldl Screen.after Screen.start) := by
  -- the screens in it are at rest, so that anything may be typed
  suffices Session gestures (gestures.foldl Screen.after Screen.start) ∧
      (gestures.foldl Screen.after Screen.start).panel.wantsFocus = false from this.1
  induction gestures using List.reverseRecOn with
  | nil => exact ⟨.start (Screen.passes_next_nothing {}), rfl⟩
  | append_singleton gestures g ih =>
    obtain ⟨session, rest⟩ := ih
    rw [List.foldl_append]
    exact ⟨.gesture session (Screen.passes_after rest g), Screen.rest_after _ g⟩

/-- A session comes to rest as its gestures say. -/
lemma atRest_eq (session : Session gestures s) (onPad : ∀ key, .press key ∈ gestures → key ∈ padKeys) :
    s.atRest = drivenScreen gestures := by
  induction session with
  | start passes => exact passes.atRest_eq
  | @gesture gestures s g t session passes ih =>
    have onPadBefore : ∀ key, .press key ∈ gestures → key ∈ padKeys :=
      fun key mem => onPad key (List.mem_append_left _ mem)
    have atRest := ih onPadBefore
    have entry : s.panel.entry = (driven gestures).entry := (congrArg (fun t : Screen => t.panel.entry) atRest :)
    have plain : Entry.fromKeyboard s.panel.entry = s.panel.entry := by
      rw [entry]
      exact Entry.fromKeyboard_of_noX (noX_driven onPadBefore)
    rw [drivenScreen_concat, ← atRest]
    refine passes.gesture plain ?_
    rintro key rfl
    exact onPad key (List.mem_append_right _ List.mem_cons_self)

end Session

/-- Whatever the toolkit decides, frame by frame, the screen shows after any gestures what the panel that they drive
tells; and for any gestures there is such a session. Gestures may follow each other without a frame between them in
which nothing happens. Of the toolkit it is assumed that a frame has one input at most, that text goes to the field
when it has the focus and only then, and that nothing is typed in the one frame in which the field is given the focus
that the panel wants, where it would be lost (`Screen.Step.type_of_inactive`). -/
theorem screen_shows_driven_panel (gestures : List Gesture) (onPad : ∀ key, .press key ∈ gestures → key ∈ padKeys) :
    Session gestures (gestures.foldl Screen.after Screen.start) ∧ ∀ s, Session gestures s → Shows gestures s :=
  ⟨.foldl_after gestures, fun _ session => .of_atRest (session.atRest_eq onPad) (noX_driven onPad)⟩

/-- Keys, a typed letter x and the enter key; then keys that do not reach the field any more. -/
theorem screen_shows_driven_panel_of_product :
    ∃ s, Session [.press (.symbol '6'), .press (.symbol '×'), .press (.symbol '-'), .type ['2', 'x', '3'], .enter,
        .clickHeader, .type ['x'], .enter] s ∧
      s.panel.entry = ['-', '3', '6'] ∧ s.active = false ∧ s.traceOpen = true ∧
      s.lines = ["Démarche", "Canonique : 6*-2*3", "Jetons    : 6 * - 2 * 3", "RPN       : 6 2 neg * 3 *",
        "Arbre     : ((6 * -2) * 3)"] := by
  obtain ⟨session, shows⟩ := screen_shows_driven_panel
    [.press (.symbol '6'), .press (.symbol '×'), .press (.symbol '-'), .type ['2', 'x', '3'], .enter,
      .clickHeader, .type ['x'], .enter] (by simp [padKeys, padRows])
  obtain ⟨entry, -, active, -, traceOpen, ⟨above, below, errorLines, sectionLines, lines⟩, -⟩ := shows _ session
  have told : driven [.press (.symbol '6'), .press (.symbol '×'), .press (.symbol '-'), .type ['2', 'x', '3'], .enter,
      .clickHeader, .type ['x'], .enter] =
        { entry := ['-', '3', '6']
          trace := some ⟨"6*-2*3".toList, "6 * - 2 * 3".toList, "6 2 neg * 3 *".toList, "((6 * -2) * 3)".toList⟩ } := by
    decide +kernel
  have unfocused : fieldActive [.press (.symbol '6'), .press (.symbol '×'), .press (.symbol '-'), .type ['2', 'x', '3'],
      .enter, .clickHeader, .type ['x'], .enter] = false := by
    decide
  have opened : sectionOpen [.press (.symbol '6'), .press (.symbol '×'), .press (.symbol '-'), .type ['2', 'x', '3'],
      .enter, .clickHeader, .type ['x'], .enter] = true := by
    decide
  rw [told] at entry errorLines sectionLines
  rw [unfocused, Bool.or_eq_false_iff] at active
  rw [opened] at traceOpen sectionLines
  refine ⟨_, session, entry, active.1, traceOpen, ?_⟩
  rw [lines]
  cases errorLines
  cases sectionLines
  decide

end Calculator
