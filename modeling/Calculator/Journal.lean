import Calculator.Token.Lexer
import Calculator.Yard
import Calculator.Forest

/-!
# Errors and events

A calculation fails in one of two public ways, a division by zero or an invalid expression. Why an
expression was rejected is told by an event. A logged computation has a list of events, in order, and an
outcome; it stops at the first failure, and everything that happened before stays in the list. Each event is written
as a line with its severity, its message and its fields.

Main statements: logged computations form a monad in which nothing follows a failure.
-/

namespace Calculator

/-- The two public errors. -/
inductive CalcError where
  | divisionByZero
  | invalidExpression
deriving DecidableEq

namespace CalcError

/-- The message of a public error. -/
def message : CalcError → String
  | divisionByZero => "division by zero"
  | invalidExpression => "invalid input"

/-- The title under which an error is shown. -/
def title : CalcError → String
  | divisionByZero => "Math Error"
  | invalidExpression => "Input Error"

end CalcError

/-- Why a text was rejected as an expression. -/
inductive Rejection where
  | empty
  | tooLong (limit : Nat)
  | lexical (error : LexError)
  | syntactic (error : SyntaxError)
  | structural (error : TreeError)
  | notFinite (value : Binary64)
deriving DecidableEq

/-- The text of a rejection. -/
def Rejection.message : Rejection → String
  | empty => "entrée vide"
  | tooLong limit => "entrée trop longue (> " ++ toString limit ++ " caractères)"
  | lexical error => error.message
  | syntactic error => error.message
  | structural error => error.message
  | notFinite value => "résultat non fini: " ++ String.ofList value.text

/-- How much an event matters. -/
inductive Severity where
  | trace
  | debug
deriving DecidableEq

/-- The name of a severity. -/
def Severity.name : Severity → String
  | trace => "TRACE"
  | debug => "DEBUG"

/-- Something that a calculation reports. -/
inductive Event where
  | reading (canonical : Text)
  | rejected (reason : Rejection)
  | zeroDivisor (left : Binary64) (op : BinaryOp)
  | zeroToNegative (base exponent : Binary64)
  | result (value : Binary64)
deriving DecidableEq

namespace Event

/-- The severity of an event: the course of a calculation is traced, its failures are for debugging. -/
def severity : Event → Severity
  | reading _ => .trace
  | rejected _ => .debug
  | zeroDivisor _ _ => .debug
  | zeroToNegative _ _ => .debug
  | result _ => .trace

/-- The message of an event. -/
def message : Event → String
  | reading _ => "lecture"
  | rejected _ => "expression rejetée"
  | zeroDivisor _ _ => "diviseur nul"
  | zeroToNegative _ _ => "zéro élevé à une puissance négative"
  | result _ => "résultat"

end Event

/-- What a field of a line holds. -/
inductive FieldValue where
  | text (text : Text)
  | number (value : Binary64)
deriving DecidableEq

/-- A line of the log. -/
structure LogLine where
  level : String
  message : String
  fields : List (String × FieldValue)
deriving DecidableEq

namespace Event

/-- The fields of an event, with their names. -/
def fields : Event → List (String × FieldValue)
  | reading canonical => [("canonique", .text canonical)]
  | rejected reason => [("raison", .text reason.message.toList)]
  | zeroDivisor left op => [("gauche", .number left), ("op", .text op.symbol)]
  | zeroToNegative base exponent => [("base", .number base), ("exposant", .number exponent)]
  | result value => [("valeur", .number value)]

/-- The line that an event is written as. -/
def line (event : Event) : LogLine :=
  ⟨event.severity.name, event.message, event.fields⟩

end Event

/-- The events of a computation and its outcome. -/
structure Logged (α : Type) where
  events : List Event
  outcome : Except CalcError α

namespace Logged

variable {α β : Type}

/-- The lines of the log of a computation. -/
def lines (x : Logged α) : List LogLine :=
  x.events.map Event.line

/-- The computation that reports one event. -/
def emit (event : Event) : Logged Unit :=
  ⟨[event], .ok ()⟩

/-- The computation that reports why it fails. -/
def fail (event : Event) (error : CalcError) : Logged α :=
  ⟨[event], .error error⟩

/-- The computation that rejects an expression. -/
def reject (reason : Rejection) : Logged α :=
  fail (.rejected reason) .invalidExpression

/-- The value of a stage, or the rejection that its error amounts to. -/
def accept {ε : Type} (reason : ε → Rejection) : Except ε α → Logged α
  | .ok a => ⟨[], .ok a⟩
  | .error e => reject (reason e)

/-- The computation that goes on with a value, unless there is none. -/
def andThen (x : Logged α) (f : α → Logged β) : Logged β :=
  match x.outcome with
  | .ok a => ⟨x.events ++ (f a).events, (f a).outcome⟩
  | .error e => ⟨x.events, .error e⟩

/-- Logged computations follow one another until one fails. -/
instance : Monad Logged where
  pure a := ⟨[], .ok a⟩
  bind := andThen

/-- A value that is there at once reports nothing. -/
theorem pure_eq (a : α) : (pure a : Logged α) = ⟨[], .ok a⟩ :=
  rfl

/-- Going on after a value appends the events. -/
theorem bind_of_ok {x : Logged α} {a : α} (f : α → Logged β) (h : x.outcome = .ok a) :
    x >>= f = ⟨x.events ++ (f a).events, (f a).outcome⟩ := by
  simp [bind, andThen, h]

/-- Nothing follows a failure. -/
theorem bind_of_error {x : Logged α} {e : CalcError} (f : α → Logged β) (h : x.outcome = .error e) :
    x >>= f = ⟨x.events, .error e⟩ := by
  simp [bind, andThen, h]

end Logged

end Calculator
