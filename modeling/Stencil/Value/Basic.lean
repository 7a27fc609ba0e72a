import Std.Data.TreeMap

/-!
Model values. A template is rendered against one value; its shape is that of JSON, with
integers kept apart from doubles and the members of an object in the order of their keys.
-/

namespace Stencil

inductive Number where
  | integer (n : Int)
  | double (x : Float)
deriving Inhabited

inductive Value where
  | null
  | bool (b : Bool)
  | number (n : Number)
  | string (s : String)
  | array (items : List Value)
  | object (members : List (String × Value))
deriving Inhabited

namespace Number

def isNonzero : Number → Bool
  | .integer n => n != 0
  | .double x => x != 0.0 && !x.isNaN

end Number

namespace Value

def ofNat (n : Nat) : Value :=
  .number (.integer n)

def asNat? : Value → Option Nat
  | .number (.integer n) => if 0 ≤ n then some n.toNat else none
  | _ => none

/-- The object with the given members: in the order of the keys, and of several members with
one key only the last. -/
def ofMembers (members : List (String × Value)) : Value :=
  .object (Std.TreeMap.ofList members).toList

def member? (value : Value) (key : String) : Option Value :=
  match value with
  | .object members => members.lookup key
  | _ => none

end Value

end Stencil
