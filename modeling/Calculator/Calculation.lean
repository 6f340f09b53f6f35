import Calculator.Canonical
import Calculator.Evaluation

/-!
# Calculations

A calculation reads a canonical text in stages: blanks are trimmed, the length is checked, and the text is
made into tokens, put into postfix order, built into a tree and evaluated. The first stage that fails ends
it. The result has to be finite. The settings bound the length of the text, the brackets open at once and
the depth of the tree.
-/

namespace Calculator

/-- The bounds on what is calculated. -/
structure Settings where
  maxDepth : Nat := 1000
  maxLength : Nat := 10000
deriving DecidableEq

/-- What the stages of a calculation found. -/
structure Reading where
  canonical : Text
  tokens : List Token
  postorder : List Token
  tree : Expr
  value : Binary64

/-- The stages of a calculation, as texts to show. -/
structure Trace where
  canonical : Text
  tokens : Text
  postorder : Text
  tree : Text
deriving DecidableEq

/-- What a calculation found, written out. -/
def Reading.trace (r : Reading) : Trace where
  canonical := r.canonical
  tokens := Token.listText r.tokens
  postorder := Token.listText r.postorder
  tree := r.tree.text

/-- The text without its outer blanks, when it is neither empty nor too long. -/
def Settings.allow (settings : Settings) (text : Text) : Except Rejection Text :=
  if text.trim.isEmpty then .error .empty
  else if settings.maxLength < text.trim.length then .error (.tooLong settings.maxLength)
  else .ok text.trim

/-- The value, when it is finite. -/
def requireFinite (value : Binary64) : Except Rejection Binary64 :=
  if value.isFinite then .ok value else .error (.notFinite value)

/-- The stages of the calculation of a canonical text. -/
def Reading.ofCanonical (settings : Settings) (text : Text) : Logged Reading := do
  let trimmed ← Logged.accept id (settings.allow text)
  Logged.emit (.reading trimmed)
  let tokens ← Logged.accept .lexical (tokenize trimmed)
  let postorder ← Logged.accept .syntactic (toPostorder settings.maxDepth tokens)
  let tree ← Logged.accept .structural (Expr.ofPostorder settings.maxDepth postorder)
  let value ← tree.eval
  let finite ← Logged.accept id (requireFinite value)
  Logged.emit (.result finite)
  pure ⟨trimmed, tokens, postorder, tree, finite⟩

/-- The value of a canonical text, in which a percent sign is the remainder, under the default settings. -/
def evaluate (text : Text) : Except CalcError Binary64 :=
  (Reading.ofCanonical {} text).outcome.map Reading.value

/-- The value of an entry under the default settings. -/
def evaluateEntry (entry : Text) : Except CalcError Binary64 :=
  evaluate (canonical entry)

/-- The value of an entry and the trace of its calculation. -/
def calculate (settings : Settings) (entry : Text) : Logged (Binary64 × Trace) := do
  let reading ← Reading.ofCanonical settings (canonical entry)
  pure (reading.value, reading.trace)

end Calculator
