/-!
# Signs

The two signs, as they stand in front of a magnitude and, as prefix operators, in front of an expression.
-/

namespace Calculator

/-- A sign. -/
inductive Sign where
  | plus
  | minus
deriving DecidableEq

namespace Sign

/-- The character that writes a sign. -/
def symbol : Sign → Char
  | plus => '+'
  | minus => '-'

/-- The other sign. -/
def opposite : Sign → Sign
  | plus => minus
  | minus => plus

/-- The sign of a product: minus when exactly one factor is negative. -/
def mul (s t : Sign) : Sign :=
  if s = t then plus else minus

/-- The integer with the given sign and absolute value. -/
def apply : Sign → Nat → Int
  | plus, n => n
  | minus, n => -n

/-- The sign of an integer, zero counting as positive. -/
def ofInt (n : Int) : Sign :=
  if n < 0 then minus else plus

/-- A sign and an absolute value determine the integer. -/
theorem apply_ofInt_natAbs (n : Int) : (ofInt n).apply n.natAbs = n := by
  unfold ofInt
  split
  · simp only [apply]; omega
  · simp only [apply]; omega

/-- Taking the opposite sign negates. -/
theorem apply_opposite (s : Sign) (n : Nat) : s.opposite.apply n = -s.apply n := by
  cases s <;> simp [opposite, apply]

end Sign

end Calculator
