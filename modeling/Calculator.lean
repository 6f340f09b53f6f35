import Calculator.Text
import Calculator.Sign
import Calculator.Binary64.Rounding
import Calculator.Binary64.Basic
import Calculator.Binary64.Interchange
import Calculator.Binary64.Arithmetic
import Calculator.Binary64.FloorDivision
import Calculator.Binary64.Power
import Calculator.Decimal.Basic
import Calculator.Decimal.Shortest
import Calculator.Decimal.Layout
import Calculator.Decimal.Numeral
import Calculator.Expr
import Calculator.Token
import Calculator.Token.Lexer
import Calculator.Yard
import Calculator.Forest
import Calculator.Grammar
import Calculator.Journal
import Calculator.Evaluation
import Calculator.Canonical
import Calculator.Calculation
import Calculator.Panel
import Calculator.Screen
import Calculator.Proofs.Binary64.Rounding
import Calculator.Proofs.Binary64.Nearest
import Calculator.Proofs.Binary64.Units
import Calculator.Proofs.Binary64.Remainder
import Calculator.Proofs.Binary64.IntegerDivision
import Calculator.Proofs.Binary64.Error
import Calculator.Proofs.Binary64.FloorDivision
import Calculator.Proofs.Decimal.Shortest
import Calculator.Proofs.Decimal.Numeral
import Calculator.Proofs.Token.Lexer
import Calculator.Proofs.Decimal.Layout
import Calculator.Proofs.Token.Seams
import Calculator.Proofs.Token.Language
import Calculator.Proofs.Result
import Calculator.Proofs.Pad
import Calculator.Proofs.Pad.Lead
import Calculator.Proofs.Pad.Keyed
import Calculator.Proofs.Pad.Rules
import Calculator.Proofs.Levels
import Calculator.Proofs.Evaluation
import Calculator.Proofs.Outcome
import Calculator.Proofs.Postorder
import Calculator.Proofs.Yard.Step
import Calculator.Proofs.Yard.Brackets
import Calculator.Proofs.Yard.Frames
import Calculator.Proofs.Yard.Grammar
import Calculator.Proofs.Course
import Calculator.Proofs.Faults
import Calculator.Proofs.Forest
import Calculator.Proofs.Rereading
import Calculator.Proofs.Composition
import Calculator.Proofs.Continuation
import Calculator.Proofs.Limits
import Calculator.Proofs.Panel
import Calculator.Proofs.Rejections
import Calculator.Proofs.Token.Text
import Calculator.Proofs.Canonical
import Calculator.Proofs.Readability
import Calculator.Proofs.Blanks
import Calculator.Proofs.Screen.Frames
import Calculator.Proofs.Screen
import Calculator.Proofs.Token.Text
