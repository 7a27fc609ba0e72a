import Stencil.Decimal.Shortest

/-!
How doubles are written: the shortest digits that read back, with a point or an exponent so
that the text is never that of an integer.
-/

namespace Stencil.Decimal

/-- The exponents of the first digit that are written with a point alone. -/
def isPositional (exponent : Int) : Bool :=
  -5 ≤ exponent && exponent ≤ 15

/-- Decimal digits without the zeros at the end. -/
def significant (n : Nat) : List Char :=
  ((Nat.toDigits 10 n).reverse.dropWhile (· == '0')).reverse

def zeros (n : Nat) : List Char :=
  List.replicate n '0'

/-- Digits with a point among, before or after them; the first stands at `10 ^ exponent`. -/
def positional (digits : List Char) (exponent : Int) : List Char :=
  if exponent < 0 then
    '0' :: '.' :: (zeros (-exponent - 1).toNat ++ digits)
  else
    let whole := exponent.toNat + 1
    let fraction := digits.drop whole
    (digits.take whole ++ zeros (whole - digits.length)) ++
      '.' :: (if fraction.isEmpty then ['0'] else fraction)

def scientific (digits : List Char) (exponent : Int) : List Char :=
  let fraction := digits.drop 1
  digits.take 1 ++ (if fraction.isEmpty then [] else '.' :: fraction) ++
    'e' :: (if exponent < 0 then '-' else '+') :: Nat.toDigits 10 exponent.natAbs

def layout (number : Decimal) : List Char :=
  let digits := significant number.digits
  let exponent := number.exponent + (Nat.toDigits 10 number.digits).length - 1
  if isPositional exponent then positional digits exponent else scientific digits exponent

example : layout ⟨5, -1⟩ = "0.5".toList := by decide +kernel
example : layout ⟨1, -5⟩ = "0.00001".toList := by decide +kernel
example : layout ⟨1, -6⟩ = "1e-6".toList := by decide +kernel
example : layout ⟨1, 15⟩ = "1000000000000000.0".toList := by decide +kernel
example : layout ⟨15, 299⟩ = "1.5e+300".toList := by decide +kernel
example : layout ⟨123, -1⟩ = "12.3".toList := by decide +kernel

end Stencil.Decimal

namespace Stencil

def doubleText (x : Float) : String :=
  let bits := x.toBits.toNat
  let magnitude := bits % Binary.signBit
  let body :=
    if magnitude = 0 then ['0', '.', '0'] else (Binary.ofBits magnitude).shortest.layout
  String.ofList (if bits / Binary.signBit = 1 then '-' :: body else body)

end Stencil
