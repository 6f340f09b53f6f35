import Calculator.Binary64.Arithmetic

/-!
# Floor division

The quotient rounded down and the remainder that goes with it. The truncated remainder is exact; when its
sign differs from the divisor's, the divisor is added to it and the quotient goes down by one. The quotient
is then moved to the nearest integer, which absorbs the rounding of the steps before. A zero remainder has
the divisor's sign, a zero quotient the sign of the true quotient.
-/

namespace Calculator.Binary64

/-- The integer nearest to a number that lies close to it; a half stays below. -/
def settle (q : Binary64) : Binary64 :=
  let below := q.floor
  if half.lt (q.sub below) then below.add one else below

/-- Whether the truncated remainder is nonzero and its sign differs from the divisor's. -/
def overshoots (a b : Binary64) : Bool :=
  !(a.rem b).isZero && (b.isNegative != (a.rem b).isNegative)

/-- The remainder of floored division. -/
def mod (a b : Binary64) : Binary64 :=
  if (a.rem b).isZero then zero b.sign
  else if overshoots a b then (a.rem b).add b
  else a.rem b

/-- The quotient that goes with the floored remainder, before it is moved to an integer. -/
def rawQuotient (a b : Binary64) : Binary64 :=
  let exact := (a.sub (a.rem b)).div b
  if overshoots a b then exact.sub one else exact

/-- The floored quotient. -/
def floorDiv (a b : Binary64) : Binary64 :=
  if (rawQuotient a b).isZero then zero (a.div b).sign else settle (rawQuotient a b)

end Calculator.Binary64
