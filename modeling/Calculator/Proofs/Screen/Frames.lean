import Mathlib.Data.List.Basic
import Mathlib.Tactic.Lemma
import Calculator.Screen

/-!
# Gestures, frame by frame

The toolkit decides how many frames a gesture takes and, within bounds, what it reports of the field in each of them
(`Reports`): whether the enter key, the escape key and clicks on keys take the focus away is left open, and so is
whether a frame in which nothing happens comes between two gestures. Until such a frame the panel may want a focus
that the field has not got yet, so screens are compared by what they are at rest (`Screen.atRest`): whatever the
toolkit decides, each gesture does one thing to that. Only text has to wait for the focus (`Screen.Admits`), since the
frame that gives it does not take what is typed (`Screen.Step.type_of_inactive`). Main statement:
`Screen.Passes.gesture`.
-/

namespace Calculator

/-- What may be relied on in a report on a field with the given text, focused until then or not. Text goes to the end
of a field that has the focus, and nowhere else. A click on the field gives it the focus, a click on the header takes
it away; the pointer on the field may give it, and all else but text may take it away. -/
inductive Reports (focused : Bool) (text : Text) : Input → FieldReport → Prop where
  | nothing :
    Reports focused text .nothing ⟨text, false, focused⟩
  | typed {added} :
    focused = true →
    Reports focused text (.text added) ⟨text ++ added, !added.isEmpty, true⟩
  | ignored {added} :
    focused = false →
    Reports focused text (.text added) ⟨text, false, false⟩
  | pointField {now} :
    (focused = true → now = true) →
    Reports focused text (.point .field) ⟨text, false, now⟩
  | point {target now} :
    target ≠ .field →
    (now = true → focused = true) →
    Reports focused text (.point target) ⟨text, false, now⟩
  | clickField :
    Reports focused text (.click .field) ⟨text, false, true⟩
  | clickHeader :
    Reports focused text (.click .header) ⟨text, false, false⟩
  | clickKey {key now} :
    (now = true → focused = true) →
    Reports focused text (.click (.key key)) ⟨text, false, now⟩
  | clickCalculate {now} :
    (now = true → focused = true) →
    Reports focused text (.click .calculate) ⟨text, false, now⟩
  | enter {now} :
    (now = true → focused = true) →
    Reports focused text .enter ⟨text, false, now⟩
  | escape {now} :
    (now = true → focused = true) →
    Reports focused text .escape ⟨text, false, now⟩

namespace Gesture

/-- The actions of a gesture on a panel with the given entry, whose field is active or not. -/
def actions (active : Bool) (entry : Text) : Gesture → List Panel.Action
  | press (.symbol c) => [.insert [c]]
  | press .clear | escape => [.clear]
  | press .backspace => [.backspace]
  | pressCalculate => [.calculate]
  | type text => if active then [.setEntry (entry ++ text), .fromKeyboard] else []
  | enter => if active then [.calculate] else []
  | wait | clickHeader | clickField => []

/-- Whether a gesture decides where the focus is afterwards. -/
def movesFocus : Gesture → Bool
  | press _ | pressCalculate | clickHeader | clickField | escape => true
  | wait | type _ | enter => false

end Gesture

namespace Screen

/-- One frame with an input leads from a screen to another. -/
def Step (input : Input) (s t : Screen) : Prop :=
  ∃ report, Reports s.active (s.heed input).panel.entry input report ∧ t = s.frame input report

/-- The input may arrive: any may, but what is typed not before the field has the focus that the panel wants. -/
def Admits (s : Screen) (input : Input) : Prop :=
  s.panel.wantsFocus = true → s.active = false → ∀ typed, input ≠ .text typed

/-- Frames in which the inputs arrive in order, each in a frame of its own, with any number of frames around them in
which nothing happens, lead from a screen to another. -/
inductive Passes : List Input → Screen → Screen → Prop where
  | nil {s} :
    Passes [] s s
  | idle {inputs s t u} :
    Step .nothing s t →
    Passes inputs t u →
    Passes inputs s u
  | input {input inputs s t u} :
    s.Admits input →
    Step input s t →
    Passes inputs t u →
    Passes (input :: inputs) s u

/-- The screen once the focus that its panel wants has been given to the field. -/
def atRest (s : Screen) : Screen :=
  ⟨s.panel.apply .dropFocus, s.active || s.panel.wantsFocus, s.traceOpen⟩

/-- The screen once a gesture has had its effect: actions on the panel, and what becomes of focus and section. -/
def done (s : Screen) (gesture : Gesture) : Screen where
  panel := (s.panel.run (gesture.actions s.active s.panel.entry)).apply .dropFocus
  active := if gesture.movesFocus then decide (gesture ≠ .clickHeader) else s.active
  traceOpen := if gesture = .clickHeader then !s.traceOpen else s.traceOpen

/-! ## The view -/

section

variable {s : Screen} {input : Input}

/-- A panel that has the focus that it wants does not want it any more. -/
lemma settled_eq (p : Panel) : settled p = p.apply .dropFocus := by
  unfold settled
  split
  · rfl
  · rename_i unwanted
    rw [Bool.not_eq_true] at unwanted
    rw [Panel.apply, ← unwanted]

/-- Without the escape key nothing is cleared. -/
lemma heed_of_ne (noEscape : input ≠ .escape) : s.heed input = s :=
  if_neg noEscape

/-- A report without a change leaves the panel as it is. -/
lemma taken_of_unchanged (p : Panel) (focused : Bool) : taken p ⟨p.entry, false, focused⟩ = p :=
  rfl

/-- Unless enter is pressed, the field only takes what is reported and the focus that is wanted. -/
lemma showField_of_ne (noEnter : input ≠ .enter) (report : FieldReport) :
    s.showField input report =
      { s with
        panel := (taken s.panel report).apply .dropFocus
        active := report.focused || (taken s.panel report).wantsFocus } := by
  simp [showField, noEnter, settled_eq]

/-- Of the keys, the one that is clicked acts, and only once. -/
lemma foldl_click {keys : List Key} (nodup : keys.Nodup) (p : Panel) (key : Key) :
    keys.foldl (fun p k => if Input.click (.key key) = .click (.key k) then p.apply k.action else p) p =
      if key ∈ keys then p.apply key.action else p := by
  induction keys generalizing p with
  | nil => rfl
  | cons k keys ih =>
    obtain ⟨fresh, nodup⟩ := List.nodup_cons.mp nodup
    rw [List.foldl_cons, ih nodup]
    by_cases same : key = k
    · subst same
      simp [fresh]
    · simp [same]

/-- A click on a key of the pad does what the key does. -/
lemma showPad_of_key {key : Key} (onPad : key ∈ padKeys) :
    s.showPad (.click (.key key)) = { s with panel := s.panel.apply key.action } := by
  have nodup : padKeys.Nodup := by decide
  unfold showPad
  rw [foldl_click nodup, if_pos onPad]
  simp

/-- A click on the key that calculates calculates. -/
lemma showPad_of_calculate : s.showPad (.click .calculate) = { s with panel := s.panel.apply .calculate } := by
  simp [showPad, List.foldl_fixed]

/-- The pad takes notice of clicks on its keys only. -/
lemma showPad_of_other (noKey : ∀ key, input ≠ .click (.key key)) (noCalculate : input ≠ .click .calculate) :
    s.showPad input = s := by
  simp [showPad, noKey, noCalculate, List.foldl_fixed]

/-- The section takes notice of clicks on its header only. -/
lemma showTrace_of_ne (noHeader : input ≠ .click .header) : s.showTrace input = s :=
  if_neg noHeader

/-- What is below the field takes notice of clicks only. -/
lemma below_of_noClick (noClick : ∀ target, input ≠ .click target) : (s.showPad input).showTrace input = s := by
  rw [showPad_of_other (fun key => noClick (.key key)) (noClick .calculate), showTrace_of_ne (noClick .header)]

end

/-! ## Frames -/

section

variable {s t u : Screen} {input : Input} {inputs : List Input}

/-- A panel that wants no focus has none to drop. -/
lemma dropFocus_of_rest {p : Panel} (rest : p.wantsFocus = false) : p.apply .dropFocus = p := by
  rw [Panel.apply, ← rest]

/-- A screen whose panel wants no focus is at rest. -/
lemma atRest_of_rest (rest : s.panel.wantsFocus = false) : s.atRest = s := by
  rw [atRest, dropFocus_of_rest rest, rest, Bool.or_false]

/-- A key wants the focus for the field. -/
lemma wantsFocus_action (p : Panel) (key : Key) : (p.apply key.action).wantsFocus = true := by
  cases key <;> rfl

/-- A calculation wants the focus for the field, whatever comes of it. -/
lemma wantsFocus_calculate (p : Panel) : p.calculate.wantsFocus = true := by
  unfold Panel.calculate
  split
  · rfl
  · split <;> rfl

/-- Without the escape key a frame is what the field, the pad and the section make of it. -/
lemma Step.exists_report (step : Step input s t) (noEscape : input ≠ .escape) :
    ∃ report, Reports s.active s.panel.entry input report ∧
      t = ((s.showField input report).showPad input).showTrace input := by
  obtain ⟨report, reports, rfl⟩ := step
  rw [frame, heed_of_ne noEscape] at *
  exact ⟨report, reports, rfl⟩

/-- A frame in which nothing happens gives the field the focus that the panel wants. -/
lemma Step.nothing (step : Step .nothing s t) : t = s.atRest := by
  obtain ⟨_, ⟨⟩, rfl⟩ := step.exists_report nofun
  rw [below_of_noClick (by simp), showField_of_ne (by simp), taken_of_unchanged, atRest]

/-- The pointer gives the field the focus that the panel wants, and changes nothing else but the focus. -/
lemma Step.point {target : Target} (step : Step (.point target) s t) : ∃ active, t = { s.atRest with active } := by
  obtain ⟨report, reports, rfl⟩ := step.exists_report nofun
  obtain ⟨focused, rfl⟩ : ∃ focused, report = ⟨s.panel.entry, false, focused⟩ := by
    cases reports <;> exact ⟨_, rfl⟩
  refine ⟨focused || s.panel.wantsFocus, ?_⟩
  rw [below_of_noClick (by simp), showField_of_ne (by simp), taken_of_unchanged, atRest]

/-- A click on a target changes the focus, and then does what the pad and the section do. -/
lemma Step.click {target : Target} (step : Step (.click target) s t) (rest : s.panel.wantsFocus = false) :
    ∃ active, t = ({ s with active }.showPad (.click target)).showTrace (.click target) ∧
      (target = .header → active = false) ∧ (target = .field → active = true) := by
  obtain ⟨report, reports, rfl⟩ := step.exists_report nofun
  obtain ⟨focused, rfl, lost, given⟩ : ∃ focused, report = ⟨s.panel.entry, false, focused⟩ ∧
      (target = .header → focused = false) ∧ (target = .field → focused = true) := by
    cases reports <;> exact ⟨_, rfl, by simp, by simp⟩
  refine ⟨focused, ?_, lost, given⟩
  rw [showField_of_ne (by simp), taken_of_unchanged, dropFocus_of_rest rest, rest, Bool.or_false]

/-- What is typed into a field without the focus is lost, even if the same frame gives it the focus. -/
lemma Step.type_of_inactive {typed : Text} (step : Step (.text typed) s t) (inactive : s.active = false) :
    t = s.atRest := by
  obtain ⟨report, reports, rfl⟩ := step.exists_report nofun
  rw [below_of_noClick (by simp), showField_of_ne (by simp)]
  cases reports with
  | typed active => simp [inactive] at active
  | ignored _ => rw [taken_of_unchanged, atRest, inactive]

/-- What is typed goes to the end of the entry if the field has the focus. -/
lemma Step.type_of_active {typed : Text} (step : Step (.text typed) s t) (active : s.active = true)
    (plain : Entry.fromKeyboard s.panel.entry = s.panel.entry) :
    t = { s.atRest with panel := s.atRest.panel.run [.setEntry (s.panel.entry ++ typed), .fromKeyboard] } := by
  obtain ⟨report, reports, rfl⟩ := step.exists_report nofun
  rw [below_of_noClick (by simp), showField_of_ne (by simp)]
  cases reports with
  | typed _ =>
    have taken_eq : taken s.panel ⟨s.panel.entry ++ typed, !typed.isEmpty, true⟩ =
        s.panel.run [.setEntry (s.panel.entry ++ typed), .fromKeyboard] := by
      by_cases empty : typed = []
      · -- the field reports no change, and there is no letter to be replaced
        subst empty
        simp [taken, Panel.run, Panel.apply, Panel.fromKeyboard, plain]
      · simp [taken, Panel.run, empty]
    rw [taken_eq, atRest, active]
    rfl
  | ignored inactive => simp [active] at inactive

/-- What may be typed reaches a field that has the focus, and no other. -/
lemma Step.type {typed : Text} (step : Step (.text typed) s t) (admits : s.Admits (.text typed))
    (plain : Entry.fromKeyboard s.panel.entry = s.panel.entry) :
    t.atRest = s.atRest.done (.type typed) := by
  cases focused : s.active with
  | true =>
    rw [step.type_of_active focused plain]
    simp [atRest, done, Gesture.actions, Gesture.movesFocus, focused, Panel.run, Panel.apply, Panel.fromKeyboard]
  | false =>
    have settled : s.panel.wantsFocus = false := by
      cases wanted : s.panel.wantsFocus with
      | false => rfl
      | true => exact absurd rfl (admits wanted focused typed)
    rw [step.type_of_inactive focused]
    simp [atRest, done, Gesture.actions, Gesture.movesFocus, focused, settled, Panel.run, Panel.apply]

/-- The enter key calculates once if the field has the focus or is given it, whether it keeps it or loses it then. -/
lemma Step.enter (step : Step .enter s t) : t.atRest = s.atRest.done .enter := by
  obtain ⟨report, reports, rfl⟩ := step.exists_report nofun
  cases reports with
  | @enter now kept =>
    have reached : ((now || s.panel.wantsFocus) || s.active && !(now || s.panel.wantsFocus)) =
        (s.active || s.panel.wantsFocus) := by
      cases now with
      | false => cases s.active <;> simp
      | true => simp [kept rfl]
    rw [below_of_noClick (by simp), showField, taken_of_unchanged, settled_eq]
    simp only [reached, true_and]
    cases focused : (s.active || s.panel.wantsFocus) with
    | true =>
      simp [atRest, done, Gesture.actions, Gesture.movesFocus, focused, Panel.run, Panel.apply, wantsFocus_calculate]
    | false =>
      obtain ⟨inactive, unwanted⟩ := Bool.or_eq_false_iff.mp focused
      obtain rfl : now = false := by simpa [inactive] using kept
      simp [atRest, done, Gesture.actions, Gesture.movesFocus, inactive, unwanted, Panel.run, Panel.apply]

/-- The escape key clears the panel, and the field has the focus in the same frame. -/
lemma Step.escape (step : Step .escape s t) :
    t = { s with panel := (s.panel.apply .clear).apply .dropFocus, active := true } := by
  obtain ⟨_, ⟨⟩, rfl⟩ := step
  have wanted : (s.panel.apply .clear).wantsFocus = true := rfl
  rw [frame, below_of_noClick (by simp), showField_of_ne (by simp), taken_of_unchanged]
  simp [heed, wanted]

/-! ## Gestures -/

/-- A screen at rest stays at rest. -/
lemma atRest_atRest (s : Screen) : s.atRest.atRest = s.atRest :=
  atRest_of_rest (s := s.atRest) rfl

/-- A screen and what it is at rest are the same at rest. -/
lemma atRest_eq_of_or {r : Screen} (before : r = s ∨ r = s.atRest) : r.atRest = s.atRest := by
  rcases before with rfl | rfl
  · rfl
  · exact atRest_atRest s

/-- Frames in which nothing happens lead to the same screen at rest. -/
lemma Passes.atRest_eq (passes : Passes [] s u) : u.atRest = s.atRest := by
  generalize empty : ([] : List Input) = inputs at passes
  induction passes with
  | nil => rfl
  | idle step _ ih => rw [ih empty, step.nothing, atRest_atRest]
  | input => cases empty

/-- An input arrives at a screen or, if nothing happens before, at the same screen at rest. -/
lemma Passes.exists_step (passes : Passes (input :: inputs) s u) :
    ∃ r t, (r = s ∨ r = s.atRest) ∧ r.Admits input ∧ Step input r t ∧ Passes inputs t u := by
  generalize whole : input :: inputs = arriving at passes
  induction passes with
  | nil => cases whole
  | idle step _ ih =>
    obtain ⟨r, t, before, next⟩ := ih whole
    rw [step.nothing, atRest_atRest, or_self] at before
    exact ⟨r, t, .inr before, next⟩
  | input admits step passes =>
    cases whole
    exact ⟨_, _, .inl rfl, admits, step, passes⟩

/-- What one input does to a screen at rest is all that it does. -/
lemma Passes.exists_single (passes : Passes [input] s u) :
    ∃ r t, r.atRest = s.atRest ∧ r.panel.entry = s.panel.entry ∧ r.Admits input ∧ Step input r t ∧
      u.atRest = t.atRest := by
  obtain ⟨r, t, before, admits, step, passes⟩ := passes.exists_step
  refine ⟨r, t, atRest_eq_of_or before, ?_, admits, step, passes.atRest_eq⟩
  rcases before with rfl | rfl <;> rfl

/-- A click, with the pointer going down before it, does what the pad and the section do. -/
lemma Passes.click {target : Target} (passes : Passes [.point target, .click target] s u) :
    ∃ active, u.atRest = (({ s.atRest with active }.showPad (.click target)).showTrace (.click target)).atRest ∧
      (target = .header → active = false) ∧ (target = .field → active = true) := by
  obtain ⟨r, t, before, -, point, passes⟩ := passes.exists_step
  obtain ⟨pointed, rfl⟩ := point.point
  rw [atRest_eq_of_or before] at passes
  -- the pointer has left no focus to be given
  obtain ⟨r, t, before, -, click, passes⟩ := passes.exists_step
  obtain rfl : r = { s.atRest with active := pointed } := by
    rcases before with rfl | rfl
    · rfl
    · exact atRest_of_rest rfl
  obtain ⟨active, rfl, lost, given⟩ := click.click rfl
  exact ⟨active, passes.atRest_eq, lost, given⟩

/-- Whatever the toolkit decides, a gesture has its one effect on the screen at rest. -/
theorem Passes.gesture {g : Gesture} (passes : Passes g.inputs s u)
    (plain : Entry.fromKeyboard s.panel.entry = s.panel.entry) (onPad : ∀ key, g = .press key → key ∈ padKeys) :
    u.atRest = s.atRest.done g := by
  cases g with
  | wait =>
    rw [passes.atRest_eq]
    simp [atRest, done, Gesture.actions, Gesture.movesFocus, Panel.run, Panel.apply]
  | press key =>
    obtain ⟨active, effect, -, -⟩ := passes.click
    rw [effect, showPad_of_key (onPad key rfl), showTrace_of_ne (by simp)]
    have translated (focused : Bool) (entry : Text) : Gesture.actions focused entry (.press key) = [key.action] := by
      cases key <;> rfl
    simp [atRest, done, translated, Gesture.movesFocus, Panel.run, wantsFocus_action]
  | pressCalculate =>
    obtain ⟨active, effect, -, -⟩ := passes.click
    rw [effect, showPad_of_calculate, showTrace_of_ne (by simp)]
    simp [atRest, done, Gesture.actions, Gesture.movesFocus, Panel.run, Panel.apply, wantsFocus_calculate]
  | clickHeader =>
    obtain ⟨active, effect, lost, -⟩ := passes.click
    rw [effect, showPad_of_other (by simp) (by simp), lost rfl]
    simp [showTrace, atRest, done, Gesture.actions, Gesture.movesFocus, Panel.run, Panel.apply]
  | clickField =>
    obtain ⟨active, effect, -, given⟩ := passes.click
    rw [effect, showPad_of_other (by simp) (by simp), showTrace_of_ne (by simp), given rfl]
    simp [atRest, done, Gesture.actions, Gesture.movesFocus, Panel.run, Panel.apply]
  | type typed =>
    obtain ⟨r, t, same, entry, admits, step, effect⟩ := passes.exists_single
    rw [effect, step.type admits (by rwa [entry]), same]
  | enter =>
    obtain ⟨r, t, same, -, -, step, effect⟩ := passes.exists_single
    rw [effect, step.enter, same]
  | escape =>
    obtain ⟨r, t, same, -, -, step, effect⟩ := passes.exists_single
    rw [effect, step.escape, ← same]
    simp [atRest, done, Gesture.actions, Gesture.movesFocus, Panel.run, Panel.apply, Panel.clear]

/-! ## The toolkit at hand -/

/-- The toolkit at hand reports what may be relied on, and takes the focus away wherever it may. -/
lemma reports_report (focused : Bool) (text : Text) (input : Input) :
    Reports focused text input (input.report focused text) := by
  cases input with
  | nothing => exact .nothing
  | point target =>
    by_cases field : target = .field
    · rw [field]
      exact .pointField fun _ => rfl
    · rw [Input.report, decide_eq_false field]
      exact .point field nofun
  | click target =>
    cases target with
    | key key => exact .clickKey nofun
    | calculate => exact .clickCalculate nofun
    | header => exact .clickHeader
    | field => exact .clickField
  | text typed =>
    cases focused with
    | true => exact .typed rfl
    | false => exact .ignored rfl
  | enter => exact .enter nofun
  | escape => exact .escape nofun

/-- A frame with the toolkit at hand is one that may be. -/
lemma step_next (s : Screen) (input : Input) : Step input s (s.next input) :=
  ⟨_, reports_report .., rfl⟩

/-- A frame in which nothing happens may follow. -/
lemma passes_next_nothing (s : Screen) : Passes [] s (s.next .nothing) :=
  .idle (s.step_next .nothing) .nil

/-- With the toolkit at hand a gesture leads on from a screen at rest. -/
lemma passes_after (rest : s.panel.wantsFocus = false) (g : Gesture) : Passes g.inputs s (s.after g) := by
  have click (target : Target) :
      Passes [.point target, .click target] s (((s.next (.point target)).next (.click target)).next .nothing) :=
    .input (by simp [Admits]) (step_next ..) (.input (by simp [Admits]) (step_next ..) (passes_next_nothing _))
  cases g with
  | wait => exact passes_next_nothing s
  | press key => exact click (.key key)
  | pressCalculate => exact click .calculate
  | clickHeader => exact click .header
  | clickField => exact click .field
  | type typed => exact .input (by simp [Admits, rest]) (step_next ..) (passes_next_nothing _)
  | enter => exact .input (by simp [Admits]) (step_next ..) (passes_next_nothing _)
  | escape => exact .input (by simp [Admits]) (step_next ..) (passes_next_nothing _)

/-- A gesture with the toolkit at hand ends at rest. -/
lemma rest_after (s : Screen) (g : Gesture) : (s.after g).panel.wantsFocus = false := by
  rw [after, List.foldl_append]
  exact congrArg (fun t : Screen => t.panel.wantsFocus) (step_next _ .nothing).nothing

end

end Screen

end Calculator
