import Calculator.Calculation

/-!
# The panel

The panel holds an entry that keys and the keyboard edit, the error or the trace of the last calculation, the
settings, and whether the entry wants the keyboard focus. An operator key keeps the entry well formed: none
but minus starts an entry, and an operator replaces an operator or a point before it, except that a minus
is added after any of them but another minus. A calculation that succeeds puts its result into the entry;
one that fails leaves the entry alone; a blank entry is not calculated.
-/

namespace Calculator

/-- The symbols that the panel takes for operators. -/
def operatorSymbols : Text :=
  ['+', '-', '×', '÷', '*', '/', '%']

/-- Whether the panel takes a symbol for an operator. -/
def isOperator (c : Char) : Bool :=
  operatorSymbols.contains c

namespace Entry

/-- The entry after an operator key. -/
def putOperator (entry : Text) (op : Char) : Text :=
  match entry.getLast? with
  | none => if op = '-' then [op] else []
  | some last =>
    if (isOperator last || decide (last = '.')) && !(decide (op = '-') && decide (last ≠ '-')) then
      entry.dropLast ++ [op]
    else entry ++ [op]

/-- The entry after a key: an operator follows its rules, any other text is appended. -/
def put (entry : Text) : Text → Text
  | [c] => if isOperator c then putOperator entry c else entry ++ [c]
  | text => entry ++ text

/-- A letter x is a multiplication sign. -/
def multiplicationSign (c : Char) : Char :=
  if c = 'x' ∨ c = 'X' then '×' else c

/-- The entry as typed on a keyboard, with its letters x made into multiplication signs. -/
def fromKeyboard (entry : Text) : Text :=
  entry.map multiplicationSign

end Entry

/-- The state of the panel. -/
structure Panel where
  entry : Text := []
  error : Option CalcError := none
  trace : Option Trace := none
  settings : Settings := {}
  wantsFocus : Bool := true
deriving DecidableEq

namespace Panel

/-- A key puts its text into the entry. -/
def insert (p : Panel) (text : Text) : Panel :=
  { p with entry := Entry.put p.entry text, wantsFocus := true }

/-- The entry and the error are cleared; the trace stays. -/
def clear (p : Panel) : Panel :=
  { p with entry := [], error := none, wantsFocus := true }

/-- The last symbol of the entry is removed. -/
def backspace (p : Panel) : Panel :=
  { p with entry := p.entry.dropLast, wantsFocus := true }

/-- The entry is taken as typed on a keyboard. -/
def fromKeyboard (p : Panel) : Panel :=
  { p with entry := Entry.fromKeyboard p.entry }

/-- The entry is calculated, unless it is blank. -/
def calculate (p : Panel) : Panel :=
  if p.entry.trim.isEmpty then { p with wantsFocus := true }
  else
    match (Calculator.calculate p.settings p.entry.trim).outcome with
    | .ok (value, trace) =>
      { p with entry := value.resultText, error := none, trace := some trace, wantsFocus := true }
    | .error e => { p with error := some e, trace := none, wantsFocus := true }

/-- The message shown for the error, if there is one. -/
def errorMessage (p : Panel) : Option String :=
  p.error.map fun e => e.title ++ ": " ++ e.message

/-- What can be done to a panel. -/
inductive Action where
  | look
  | insert (text : Text)
  | clear
  | backspace
  | fromKeyboard
  | calculate
  | setEntry (text : Text)
  | dropFocus
  | setSettings (settings : Settings)

/-- The panel after an action. -/
def apply (p : Panel) : Action → Panel
  | .look => p
  | .insert text => p.insert text
  | .clear => p.clear
  | .backspace => p.backspace
  | .fromKeyboard => p.fromKeyboard
  | .calculate => p.calculate
  | .setEntry text => { p with entry := text }
  | .dropFocus => { p with wantsFocus := false }
  | .setSettings settings => { p with settings := settings }

/-- The panel after actions, in order. -/
def run (p : Panel) (actions : List Action) : Panel :=
  actions.foldl apply p

/-- The panels after each of the actions. -/
def history (p : Panel) : List Action → List Panel
  | [] => []
  | action :: rest => p.apply action :: history (p.apply action) rest

end Panel

end Calculator
