/-!
Rows of digits, the numbers that they denote, and the words of sixty-four bits that hold such
numbers.
-/

namespace Stencil.Text

def decimalValue (digits : List Char) : Nat :=
  digits.foldl (fun n c => 10 * n + (c.toNat - '0'.toNat)) 0

/-- The words of sixty-four bits lie below this number. -/
def wordBound : Nat := Nat.pow 2 64

/-- Takes digits after those of a number as long as the number fits a word: the number with
them, and the digits left. -/
def takeWord (n : Nat) : List Char → Nat × List Char
  | [] => (n, [])
  | c :: rest =>
      let longer := 10 * n + (c.toNat - '0'.toNat)
      if longer < wordBound then takeWord longer rest else (n, c :: rest)

/-- Lower-case hexadecimal digits of a number, with zeros in front up to a width. -/
def hexadecimal (width n : Nat) : String :=
  let digits := Nat.toDigits 16 n
  String.ofList (List.replicate (width - digits.length) '0' ++ digits)

example : decimalValue "0120".toList = 120 := by decide +kernel
example : takeWord 0 "18446744073709551615".toList = (wordBound - 1, []) := by decide +kernel
example : takeWord 0 "184467440737095516160".toList = (1844674407370955161, ['6', '0']) := by
  decide +kernel
example : hexadecimal 4 0x1F = "001f" := by decide +kernel
example : hexadecimal 1 0x7F = "7f" := by decide +kernel

end Stencil.Text
