import Stencil.Value.Printer

/-!
How templates see into values: which members a value has, whether it counts as true, and the
text that stands for it. A host may give an account of its own in place of the standard one.
-/

namespace Stencil

/-- An account of members, truth and text of values. -/
structure Metadata where
  member : Value → String → Option Value
  isTruthy : Value → Bool
  display : Value → String

namespace Metadata

/-- The index that a text denotes: decimal digits, perhaps after a plus sign, of a number below
`2 ^ 64`. -/
def index? (text : String) : Option Nat :=
  let digits :=
    match text.toList with
    | '+' :: rest => rest
    | characters => characters
  if !digits.isEmpty && digits.all Char.isDigit then
    let n := Text.decimalValue digits
    if n < Text.wordBound then some n else none
  else
    none

/-- Members by the rules of JSON: those of an object by their keys and those of an array by
their indices; arrays and strings also have a length. -/
def standardMember (value : Value) (name : String) : Option Value :=
  match value with
  | .object members => members.lookup name
  | .array items =>
      if name = "length" then some (.ofNat items.length)
      else (index? name).bind fun index => items[index]?
  | .string text => if name = "length" then some (.ofNat text.length) else none
  | _ => none

/-- Truth by the rules of JSON: null, false, zero, the empty string and the empty array count
as false. -/
def standardIsTruthy : Value → Bool
  | .null => false
  | .bool b => b
  | .number n => n.isNonzero
  | .string text => !text.isEmpty
  | .array items => !items.isEmpty
  | .object _ => true

mutual

/-- Text by the rules of JSON, but null has none, strings stand for themselves and arrays for
the texts of their items. -/
def standardDisplay : Value → String
  | .null => ""
  | .string text => text
  | .array items => ",".intercalate (standardDisplayItems items)
  | .bool b => (Value.bool b).print
  | .number n => (Value.number n).print
  | .object members => (Value.object members).print
termination_by structural value => value

def standardDisplayItems : List Value → List String
  | [] => []
  | item :: items => standardDisplay item :: standardDisplayItems items
termination_by structural items => items

end

def standard : Metadata :=
  ⟨standardMember, standardIsTruthy, standardDisplay⟩

end Metadata

end Stencil
