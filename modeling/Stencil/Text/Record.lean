import Stencil.Text.Digits

/-!
Record text: the one-line form in which a service describes itself. A record is a name and its
fields between braces, a list stands between brackets, a text between quotes.
-/

namespace Stencil.Text.Record

def quotedChar (c : Char) : String :=
  match c with
  | '"' => "\\\""
  | '\\' => "\\\\"
  | '\n' => "\\n"
  | '\t' => "\\t"
  | '\r' => "\\r"
  | '\x00' => "\\0"
  | _ =>
      if c.toNat < 0x20 || c.toNat = 0x7F then
        "\\u\x7b" ++ hexadecimal 1 c.toNat ++ "\x7d"
      else
        c.toString

def quoted (text : String) : String :=
  "\"" ++ String.join (text.toList.map quotedChar) ++ "\""

def list (items : List String) : String :=
  "[" ++ ", ".intercalate items ++ "]"

def names (items : List String) : String :=
  list (items.map quoted)

/-- The fields of a record, in order; `isOpen` tells that the record has more of them than
it shows. -/
def body (fields : List (String × String)) (isOpen : Bool) : String :=
  let shown := fields.map fun field => field.1 ++ ": " ++ field.2
  " \x7b " ++ ", ".intercalate (shown ++ if isOpen then [".."] else []) ++ " \x7d"

def closed (name : String) (fields : List (String × String)) : String :=
  name ++ body fields false

def opened (name : String) (fields : List (String × String)) : String :=
  name ++ body fields true

def optional : Option String → String
  | none => "None"
  | some text => "Some(" ++ text ++ ")"

def truth (b : Bool) : String :=
  if b then "true" else "false"

end Stencil.Text.Record
