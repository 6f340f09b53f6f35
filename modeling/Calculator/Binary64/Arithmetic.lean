import Calculator.Binary64.Basic

/-!
# Binary64 arithmetic

The four operations, the remainder of truncated division and the floor. Each is the exact result in
integers, rounded once: a sum is a whole number of units, a product is a quotient by the units of one, a
quotient is scaled by them. The sign of a zero result follows the signs of the operands.
-/

namespace Calculator.Binary64

/-- The number with the other sign. -/
def neg : Binary64 → Binary64
  | nan => nan
  | infinite s => infinite s.opposite
  | finite s m => finite s.opposite m

/-- The rounded sum; a zero sum is negative only when both terms are. -/
def add : Binary64 → Binary64 → Binary64
  | nan, _ => nan
  | _, nan => nan
  | infinite s, infinite t => if s = t then infinite s else nan
  | infinite s, finite _ _ => infinite s
  | finite _ _, infinite t => infinite t
  | finite s m, finite t n =>
    let sum := s.apply m.units + t.apply n.units
    if sum = 0 then zero (if s = t then s else .plus)
    else ofUnits (Sign.ofInt sum) sum.natAbs 1

/-- The rounded difference: the sum with the opposite. -/
def sub (a b : Binary64) : Binary64 :=
  a.add b.neg

/-- The rounded product; zero times infinity is not a number. -/
def mul : Binary64 → Binary64 → Binary64
  | nan, _ => nan
  | _, nan => nan
  | infinite s, infinite t => infinite (s.mul t)
  | infinite s, finite t n => if n.units = 0 then nan else infinite (s.mul t)
  | finite s m, infinite t => if m.units = 0 then nan else infinite (s.mul t)
  | finite s m, finite t n => ofUnits (s.mul t) (m.units * n.units) unitsPerOne

/-- The rounded quotient; a nonzero number over zero is infinite, zero over zero is not a number. -/
def div : Binary64 → Binary64 → Binary64
  | nan, _ => nan
  | _, nan => nan
  | infinite _, infinite _ => nan
  | infinite s, finite t _ => infinite (s.mul t)
  | finite s _, infinite t => zero (s.mul t)
  | finite s m, finite t n =>
    if n.units = 0 then
      if m.units = 0 then nan else infinite (s.mul t)
    else ofUnits (s.mul t) (m.units * unitsPerOne) n.units

/-- The exact remainder of the division truncated toward zero; it has the sign of the dividend. -/
def rem : Binary64 → Binary64 → Binary64
  | nan, _ => nan
  | _, nan => nan
  | infinite _, _ => nan
  | finite s m, infinite _ => finite s m
  | finite s m, finite _ n =>
    if n.units = 0 then nan else ofUnits s (m.units % n.units) 1

/-- The greatest integer that is not above the number; a zero keeps its sign. -/
def floor : Binary64 → Binary64
  | nan => nan
  | infinite s => infinite s
  | finite .plus m => ofUnits .plus (m.units / unitsPerOne * unitsPerOne) 1
  | finite .minus m =>
    ofUnits .minus ((m.units + (unitsPerOne - 1)) / unitsPerOne * unitsPerOne) 1

end Calculator.Binary64
