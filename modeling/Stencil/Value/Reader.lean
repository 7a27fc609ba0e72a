import Stencil.Decimal.Scaling
import Stencil.Text.Digits
import Stencil.Value.Basic

/-!
Reading values from JSON text. A literal without a point and without an exponent that fits
sixty-four bits, signed or unsigned, is an integer; every other number is a double. Of several
members of an object with one key the last counts.
-/

namespace Stencil.Value

def isNumberChar (c : Char) : Bool :=
  c.isDigit || c == '-' || c == '+' || c == '.' || c == 'e' || c == 'E'

/-- The parts of a number literal. -/
structure Literal where
  negative : Bool
  whole : List Char
  fraction : Option (List Char)
  exponent : Option (Bool × List Char)

/-- Cuts a number literal into its parts. A whole part of several digits starts with none that
is zero. -/
def literal? (text : List Char) : Option Literal :=
  let (negative, text) :=
    match text with
    | '-' :: rest => (true, rest)
    | _ => (false, text)
  let whole := text.takeWhile Char.isDigit
  let text := text.dropWhile Char.isDigit
  let (fraction, text) :=
    match text with
    | '.' :: rest => (some (rest.takeWhile Char.isDigit), rest.dropWhile Char.isDigit)
    | _ => (none, text)
  let exponent :=
    match text with
    | [] => some none
    | mark :: rest =>
        if mark = 'e' ∨ mark = 'E' then
          match rest with
          | '-' :: digits => some (some (true, digits))
          | '+' :: digits => some (some (false, digits))
          | digits => some (some (false, digits))
        else
          none
  match exponent with
  | none => none
  | some exponent =>
      let digitsFit (digits : List Char) := !digits.isEmpty && digits.all Char.isDigit
      if digitsFit whole && (whole.head? != some '0' || whole = ['0']) && fraction.all digitsFit &&
          (exponent.all fun part => digitsFit part.2) then
        some ⟨negative, whole, fraction, exponent⟩
      else
        none

namespace Literal

/-- The decimal that stands for a literal: its digits in a word, and the power of ten of the
last of them. Digits that the word has no room for are dropped; in the whole part each of them
still counts as a place. -/
def decimal (literal : Literal) : Decimal :=
  let fraction := literal.fraction.getD []
  let (whole, beyond) := Text.takeWord 0 literal.whole
  let (digits, dropped) := Text.takeWord whole fraction
  let written : Int :=
    match literal.exponent with
    | none => 0
    | some (true, digits) => -(Text.decimalValue digits : Int)
    | some (false, digits) => Text.decimalValue digits
  ⟨digits, written + beyond.length - (fraction.length - dropped.length : Nat)⟩

def double? (literal : Literal) : Option Float :=
  literal.decimal.toDouble?.map fun x => if literal.negative then -x else x

/-- The integer of a literal that is written as one and fits sixty-four bits. -/
def integer? (literal : Literal) : Option Int :=
  if literal.fraction.isSome || literal.exponent.isSome then
    none
  else
    let n := Text.decimalValue literal.whole
    if literal.negative then
      if 0 < n ∧ n ≤ Nat.pow 2 63 then some (-(n : Int)) else none
    else if n < Text.wordBound then
      some n
    else
      none

def number? (literal : Literal) : Option Number :=
  match literal.integer? with
  | some n => some (.integer n)
  | none => literal.double?.map .double

end Literal

def hexValue? (digits : List Char) : Option Nat :=
  digits.foldlM (fun n c =>
    if c.isDigit then some (16 * n + (c.toNat - '0'.toNat))
    else if 'a' ≤ c ∧ c ≤ 'f' then some (16 * n + 10 + (c.toNat - 'a'.toNat))
    else if 'A' ≤ c ∧ c ≤ 'F' then some (16 * n + 10 + (c.toNat - 'A'.toNat))
    else none) 0

def letterEscape? : Char → Option Char
  | '"' => some '"'
  | '\\' => some '\\'
  | '/' => some '/'
  | 'b' => some '\x08'
  | 'f' => some '\x0C'
  | 'n' => some '\n'
  | 'r' => some '\r'
  | 't' => some '\t'
  | _ => none

/-- The character of a code point; half of a surrogate pair is no character. -/
def codePoint? (n : Nat) : Option Char :=
  if n.isValidChar then some (Char.ofNat n) else none

/-- Reads the rest of a string whose opening quote has been read: its characters, and what
stands after its closing quote. -/
def readString? : List Char → Option (List Char × List Char)
  | [] => none
  | '"' :: rest => some ([], rest)
  | '\\' :: 'u' :: a :: b :: c :: d :: '\\' :: 'u' :: e :: f :: g :: h :: rest =>
      match hexValue? [a, b, c, d], hexValue? [e, f, g, h] with
      | some high, some low =>
          if 0xD800 ≤ high ∧ high < 0xDC00 then
            if 0xDC00 ≤ low ∧ low < 0xE000 then
              (readString? rest).map fun (text, rest) =>
                (Char.ofNat (0x10000 + (high - 0xD800) * 0x400 + (low - 0xDC00)) :: text, rest)
            else
              none
          else
            (codePoint? high).bind fun c =>
              (readString? ('\\' :: 'u' :: e :: f :: g :: h :: rest)).map fun (text, rest) =>
                (c :: text, rest)
      | _, _ => none
  | '\\' :: 'u' :: a :: b :: c :: d :: rest =>
      match (hexValue? [a, b, c, d]).bind codePoint? with
      | some c => (readString? rest).map fun (text, rest) => (c :: text, rest)
      | none => none
  | '\\' :: c :: rest =>
      match letterEscape? c with
      | some c => (readString? rest).map fun (text, rest) => (c :: text, rest)
      | none => none
  | c :: rest =>
      if c.toNat < 0x20 then none
      else (readString? rest).map fun (text, rest) => (c :: text, rest)

def skip (text : List Char) : List Char :=
  text.dropWhile fun c => c == ' ' || c == '\t' || c == '\n' || c == '\r'

mutual

/-- Reads a value; the first argument bounds the number of steps. -/
def readValue? : Nat → List Char → Option (Value × List Char)
  | 0, _ => none
  | steps + 1, text =>
      match skip text with
      | 'n' :: 'u' :: 'l' :: 'l' :: rest => some (.null, rest)
      | 't' :: 'r' :: 'u' :: 'e' :: rest => some (.bool true, rest)
      | 'f' :: 'a' :: 'l' :: 's' :: 'e' :: rest => some (.bool false, rest)
      | '"' :: rest =>
          (readString? rest).map fun (text, rest) => (.string (String.ofList text), rest)
      | '[' :: rest =>
          match skip rest with
          | ']' :: rest => some (.array [], rest)
          | _ => (readItems? steps rest).map fun (items, rest) => (.array items, rest)
      | '{' :: rest =>
          match skip rest with
          | '}' :: rest => some (.object [], rest)
          | _ => (readMembers? steps rest).map fun (members, rest) => (ofMembers members, rest)
      | text =>
          match (literal? (text.takeWhile isNumberChar)).bind Literal.number? with
          | some n => some (.number n, text.dropWhile isNumberChar)
          | none => none

def readItems? : Nat → List Char → Option (List Value × List Char)
  | 0, _ => none
  | steps + 1, text =>
      match readValue? steps text with
      | none => none
      | some (item, rest) =>
          match skip rest with
          | ']' :: rest => some ([item], rest)
          | ',' :: rest =>
              (readItems? steps rest).map fun (items, rest) => (item :: items, rest)
          | _ => none

def readMembers? : Nat → List Char → Option (List (String × Value) × List Char)
  | 0, _ => none
  | steps + 1, text =>
      match skip text with
      | '"' :: rest =>
          match readString? rest with
          | none => none
          | some (key, rest) =>
              match skip rest with
              | ':' :: rest =>
                  match readValue? steps rest with
                  | none => none
                  | some (value, rest) =>
                      match skip rest with
                      | '}' :: rest => some ([(String.ofList key, value)], rest)
                      | ',' :: rest =>
                          (readMembers? steps rest).map fun (members, rest) =>
                            ((String.ofList key, value) :: members, rest)
                      | _ => none
              | _ => none
      | _ => none

end

/-- The value that a JSON text denotes. Each step of reading takes up a character or hands the
text to a nested step at once, so twice the length of the text bounds their number. -/
def read? (text : String) : Option Value :=
  let characters := text.toList
  match readValue? (2 * characters.length + 1) characters with
  | some (value, rest) => if (skip rest).isEmpty then some value else none
  | none => none

end Stencil.Value
