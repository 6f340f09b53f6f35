import Calculator.Panel

/-!
# The screen

The screen shows a panel: the entry field, the pad of keys, the key that calculates, the error message and
a section with the trace that opens and closes. A toolkit shows it again and again, frame by frame, and knows
whether the field has the keyboard focus. In a frame the view looks at what the user does just then: the
escape key clears, the field takes what is typed into it, the enter key calculates if the field has the focus
or had it until then, and clicks act on the keys and on the section. An action asks for the focus, and the view
gives it to the field when it shows the field next.

A gesture takes a frame or two, and one more in which nothing happens. So the field has the focus from the
start; a click on the header of the section takes it away, and every other click and the escape key give it back.
-/

namespace Calculator

/-- A key of the pad. -/
inductive Key where
  | symbol (c : Char)
  | clear
  | backspace
deriving DecidableEq

namespace Key

/-- The label of a key. -/
def label : Key → Char
  | symbol c => c
  | clear => 'C'
  | backspace => '⌫'

/-- The action of a key. -/
def action : Key → Panel.Action
  | symbol c => .insert [c]
  | clear => .clear
  | backspace => .backspace

end Key

/-- The rows of the pad. -/
def padRows : List (List Key) :=
  [[.clear, .backspace, .symbol '%', .symbol '÷'],
    [.symbol '7', .symbol '8', .symbol '9', .symbol '×'],
    [.symbol '4', .symbol '5', .symbol '6', .symbol '-'],
    [.symbol '1', .symbol '2', .symbol '3', .symbol '+'],
    [.symbol '(', .symbol '0', .symbol ')', .symbol '.']]

/-- The keys of the pad in reading order. -/
def padKeys : List Key :=
  padRows.flatten

/-- The label of the key that calculates. -/
def calculateLabel : Char :=
  '='

/-- The labels of the pad in reading order, the key that calculates last. -/
def padLabels : List Char :=
  padKeys.map Key.label ++ [calculateLabel]

/-- The header of the section with the trace. -/
def traceHeader : String :=
  "Démarche"

/-- The line that stands for an absent trace. -/
def noTrace : String :=
  "—"

/-- What a user does. -/
inductive Gesture where
  | wait
  | press (key : Key)
  | pressCalculate
  | clickHeader
  | clickField
  | type (text : Text)
  | enter
  | escape
deriving DecidableEq

/-- What can be clicked and carries a label. -/
def Gesture.ofLabel? (label : String) : Option Gesture :=
  if label = traceHeader then some .clickHeader
  else if label.toList = [calculateLabel] then some .pressCalculate
  else (padKeys.find? fun key => decide (label.toList = [key.label])).map .press

/-- What the pointer can be on. -/
inductive Target where
  | key (key : Key)
  | calculate
  | header
  | field
deriving DecidableEq

/-- What the user does in a frame. -/
inductive Input where
  | nothing
  | point (target : Target)
  | click (target : Target)
  | text (text : Text)
  | enter
  | escape
deriving DecidableEq

/-- The inputs of a gesture: the pointer goes down on its target before it clicks. -/
def Gesture.inputs : Gesture → List Input
  | wait => []
  | press key => [.point (.key key), .click (.key key)]
  | pressCalculate => [.point .calculate, .click .calculate]
  | clickHeader => [.point .header, .click .header]
  | clickField => [.point .field, .click .field]
  | type text => [.text text]
  | enter => [.enter]
  | escape => [.escape]

/-- What the toolkit reports of the field in a frame: its text once it has taken what was typed, whether that
changed it, and whether it has the focus then. -/
structure FieldReport where
  text : Text
  changed : Bool
  focused : Bool

/-- The report on a field with the given text, focused until then or not. Text goes to its end while it has
the focus; pointing elsewhere, the enter key and the escape key take the focus away. -/
def Input.report (focused : Bool) (text : Text) : Input → FieldReport
  | nothing => ⟨text, false, focused⟩
  | point target => ⟨text, false, decide (target = .field)⟩
  | click target => ⟨text, false, decide (target = .field)⟩
  | .text typed => if focused then ⟨text ++ typed, !typed.isEmpty, true⟩ else ⟨text, false, false⟩
  | enter => ⟨text, false, false⟩
  | escape => ⟨text, false, false⟩

/-- The state of the screen: the panel, whether the field has the focus, whether the section is open. -/
structure Screen where
  panel : Panel := {}
  active : Bool := false
  traceOpen : Bool := false

namespace Screen

/-- The escape key clears the panel, before anything is shown. -/
def heed (s : Screen) (input : Input) : Screen :=
  if input = .escape then { s with panel := s.panel.apply .clear } else s

/-- The panel whose field has taken what is reported. -/
def taken (p : Panel) (report : FieldReport) : Panel :=
  if report.changed then (p.apply (.setEntry report.text)).apply .fromKeyboard
  else p.apply (.setEntry report.text)

/-- The panel once the focus that it wants has been given. -/
def settled (p : Panel) : Panel :=
  if p.wantsFocus then p.apply .dropFocus else p

/-- The field is shown: it takes what is reported and the focus that the panel wants, and the enter key
calculates if it has the focus or has just lost it. -/
def showField (s : Screen) (input : Input) (report : FieldReport) : Screen :=
  let panel := taken s.panel report
  let focused := report.focused || panel.wantsFocus
  let lost := s.active && !focused
  { s with
    panel := if input = .enter ∧ (focused || lost) then (settled panel).apply .calculate else settled panel
    active := focused }

/-- The pad is shown: a key that is clicked acts, each key being looked at in turn, then the one that
calculates. -/
def showPad (s : Screen) (input : Input) : Screen :=
  let panel := padKeys.foldl (fun p key => if input = .click (.key key) then p.apply key.action else p) s.panel
  { s with panel := if input = .click .calculate then panel.apply .calculate else panel }

/-- The section is shown: a click on its header opens or closes it. -/
def showTrace (s : Screen) (input : Input) : Screen :=
  if input = .click .header then { s with traceOpen := !s.traceOpen } else s

/-- The screen after a frame. -/
def frame (s : Screen) (input : Input) (report : FieldReport) : Screen :=
  (((s.heed input).showField input report).showPad input).showTrace input

/-- The screen after a frame with an input. -/
def next (s : Screen) (input : Input) : Screen :=
  s.frame input (input.report s.active (s.heed input).panel.entry)

/-- The screen after a gesture, at rest again. -/
def after (s : Screen) (gesture : Gesture) : Screen :=
  (gesture.inputs ++ [Input.nothing]).foldl next s

/-- The screen before the first gesture. -/
def start : Screen :=
  next {} Input.nothing

/-- The screens after each of the gestures. -/
def history (s : Screen) : List Gesture → List Screen
  | [] => []
  | gesture :: rest => s.after gesture :: history (s.after gesture) rest

/-- The lines of the section with the trace, when it is open. -/
def traceLines : Option Trace → List String
  | none => [noTrace]
  | some t =>
    ["Canonique : " ++ String.ofList t.canonical, "Jetons    : " ++ String.ofList t.tokens,
      "RPN       : " ++ String.ofList t.postorder, "Arbre     : " ++ String.ofList t.tree]

/-- The lines shown below the keys. -/
def lines (s : Screen) : List String :=
  s.panel.errorMessage.toList ++ [traceHeader] ++
    (if s.traceOpen then traceLines s.panel.trace else [])

end Screen

end Calculator
