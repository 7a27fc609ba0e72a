/-!
The shortest decimal that reads back as a given binary number. A binary number stands for all
the reals that round to it, an interval; among the decimals in that interval with the fewest
digits the one nearest to the number is chosen, and of two equally near ones the even one. All
the arithmetic is exact.
-/

namespace Stencil

/-- A double without its sign: `mantissa * 2 ^ exponent`. -/
structure Binary where
  mantissa : Nat
  exponent : Int
deriving DecidableEq, Repr

/-- The number `digits * 10 ^ exponent`, without a sign. -/
structure Decimal where
  digits : Nat
  exponent : Int
deriving DecidableEq, Repr

namespace Binary

/-- The mantissa of a normal double has this bit; below it lie the stored ones. -/
def hiddenBit : Nat := Nat.pow 2 52

def signBit : Nat := Nat.pow 2 63

def leastExponent : Int := -1074

/-- The double behind the lower sixty-three bits of a bit pattern of a finite number. -/
def ofBits (bits : Nat) : Binary :=
  let stored := bits % hiddenBit
  let biased := bits / hiddenBit % 2048
  if biased = 0 then
    ⟨stored, leastExponent⟩
  else
    ⟨hiddenBit + stored, leastExponent + (biased - 1 : Nat)⟩

/-- A quarter of the last place as a fraction: numerator and denominator. -/
def quarter (number : Binary) : Nat × Nat :=
  let exponent := number.exponent - 2
  if 0 ≤ exponent then (Nat.pow 2 exponent.toNat, 1) else (1, Nat.pow 2 (-exponent).toNat)

/-- How many quarters of the last place lie between the number and its lower bound: the next
lower double is half as far away where the mantissa is the least normal one. -/
def lowerGap (number : Binary) : Nat :=
  if number.mantissa = hiddenBit ∧ leastExponent < number.exponent then 1 else 2

/-- The reals that round to a number, as numerators over one denominator. -/
structure Interval where
  low : Nat
  middle : Nat
  high : Nat
  denominator : Nat
  closed : Bool

/-- The interval of a number; its bounds belong to it when the mantissa is even. -/
def interval (number : Binary) : Interval :=
  let (unit, denominator) := number.quarter
  let middle := 4 * number.mantissa
  { low := (middle - number.lowerGap) * unit
    middle := middle * unit
    high := (middle + 2) * unit
    denominator
    closed := number.mantissa % 2 = 0 }

namespace Interval

/-- Moves the decimal point: the interval of the numbers divided by `10 ^ exponent`. -/
def scale (interval : Interval) (exponent : Int) : Interval :=
  let up := Nat.pow 10 (-exponent).toNat
  let down := Nat.pow 10 exponent.toNat
  { interval with
    low := interval.low * up
    middle := interval.middle * up
    high := interval.high * up
    denominator := interval.denominator * down }

def holds (interval : Interval) (n : Nat) : Bool :=
  let point := n * interval.denominator
  if interval.closed then
    interval.low ≤ point && point ≤ interval.high
  else
    interval.low < point && point < interval.high

def nearestWhole (interval : Interval) : Option Nat :=
  let below := interval.middle / interval.denominator
  match interval.holds below, interval.holds (below + 1) with
  | false, false => none
  | true, false => some below
  | false, true => some (below + 1)
  | true, true =>
      let doubled := 2 * interval.middle
      let halfway := (2 * below + 1) * interval.denominator
      if doubled < halfway then some below
      else if halfway < doubled then some (below + 1)
      else some (below + below % 2)

/-- The greatest `e` with `10 ^ e` not above the middle. -/
def magnitude (interval : Interval) : Int :=
  let digitCount (n : Nat) : Int := (Nat.toDigits 10 n).length
  let estimate := digitCount interval.middle - digitCount interval.denominator
  let scaled := interval.scale estimate
  if scaled.middle < scaled.denominator then estimate - 1 else estimate

end Interval

def shortestFrom (interval : Interval) (magnitude : Int) : Nat → Nat → Decimal
  | 0, digits =>
      let exponent := magnitude - digits
      let scaled := interval.scale exponent
      ⟨scaled.middle / scaled.denominator, exponent⟩
  | more + 1, digits =>
      let exponent := magnitude - digits
      match (interval.scale exponent).nearestWhole with
      | some n => ⟨n, exponent⟩
      | none => shortestFrom interval magnitude more (digits + 1)

/-- The shortest decimal of a number. Seventeen digits are always enough. -/
def shortest (number : Binary) : Decimal :=
  let interval := number.interval
  shortestFrom interval interval.magnitude 17 0

end Binary

end Stencil
