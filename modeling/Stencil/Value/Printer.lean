import Stencil.Decimal.Layout
import Stencil.Text.Digits
import Stencil.Value.Basic

/-!
The JSON text of a value: compact, with the members of an object in their order.
-/

namespace Stencil

def Number.text : Number → String
  | .integer n => toString n
  | .double x => doubleText x

namespace Value

def quotedChar (c : Char) : String :=
  match c with
  | '"' => "\\\""
  | '\\' => "\\\\"
  | '\x08' => "\\b"
  | '\x0C' => "\\f"
  | '\n' => "\\n"
  | '\r' => "\\r"
  | '\t' => "\\t"
  | _ => if c.toNat < 0x20 then "\\u" ++ Text.hexadecimal 4 c.toNat else c.toString

def quoted (text : String) : String :=
  "\"" ++ String.join (text.toList.map quotedChar) ++ "\""

mutual

def print : Value → String
  | .null => "null"
  | .bool b => if b then "true" else "false"
  | .number n => n.text
  | .string s => quoted s
  | .array items => "[" ++ ",".intercalate (printItems items) ++ "]"
  | .object members => "\x7b" ++ ",".intercalate (printMembers members) ++ "\x7d"
termination_by structural value => value

def printItems : List Value → List String
  | [] => []
  | item :: items => item.print :: printItems items
termination_by structural items => items

def printMembers : List (String × Value) → List String
  | [] => []
  | (key, value) :: members => (quoted key ++ ":" ++ value.print) :: printMembers members
termination_by structural members => members

end

end Value

end Stencil
