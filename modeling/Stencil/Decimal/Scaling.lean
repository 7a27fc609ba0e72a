import Stencil.Decimal.Shortest

/-!
The double that stands for a decimal when it is read. The digits become a double first, which
is then multiplied or divided by a power of ten that is a double as well. Each of these steps
rounds to the nearest double, so that digits of more than fifty-three bits, or an exponent
beyond twenty-two, may lead to a neighbour of the double that is nearest to the decimal.
-/

namespace Stencil.Decimal

/-- The exponent of the greatest power of ten that is a finite double. -/
def maxPower : Nat := 308

def tenPower (exponent : Nat) : Float :=
  Float.ofScientific 1 false exponent

/-- Divides by a power of ten, and where no double is that power by the greatest one as often
as it takes. -/
def divideByPower (x : Float) (exponent : Nat) : Float :=
  if exponent ≤ maxPower then
    x / tenPower exponent
  else if x == 0.0 then
    x
  else
    divideByPower (x / tenPower maxPower) (exponent - maxPower)
termination_by exponent
decreasing_by
  simp only [maxPower] at *
  omega

/-- The double that stands for a decimal; none where it is too large. -/
def toDouble? (number : Decimal) : Option Float :=
  let x := Float.ofScientific number.digits false 0
  if number.exponent < 0 then
    some (divideByPower x number.exponent.natAbs)
  else if number.exponent ≤ maxPower then
    let scaled := x * tenPower number.exponent.toNat
    if scaled.isInf then none else some scaled
  else if x == 0.0 then
    some x
  else
    none

end Stencil.Decimal
