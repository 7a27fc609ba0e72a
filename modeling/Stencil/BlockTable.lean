import Std.Data.TreeMap

/-!
Block tables: the names that may open a block, each with a rule on its argument. A table is all
that a reader of templates has to know about the helpers of a renderer.
-/

namespace Stencil

/-- Whether a block needs an argument; where it may do without, the current value stands in. -/
inductive ArgumentRule where
  | required
  | optional
deriving DecidableEq, Repr, Inhabited

/-- The blocks that a reader accepts, by name. -/
structure BlockTable where
  rules : Std.TreeMap String ArgumentRule

namespace BlockTable

def empty : BlockTable := ⟨∅⟩

def insert (table : BlockTable) (name : String) (rule : ArgumentRule) : BlockTable :=
  ⟨table.rules.insert name rule⟩

def rule? (table : BlockTable) (name : String) : Option ArgumentRule :=
  table.rules[name]?

def contains (table : BlockTable) (name : String) : Bool :=
  (table.rule? name).isSome

def size (table : BlockTable) : Nat :=
  table.rules.size

def names (table : BlockTable) : List String :=
  table.rules.keys

/-- The table of a list of names and rules; of several rules for one name the last counts. -/
def ofList (rules : List (String × ArgumentRule)) : BlockTable :=
  rules.foldl (fun table entry => table.insert entry.1 entry.2) empty

def builtin : BlockTable :=
  ofList [("if", .required), ("unless", .required), ("each", .required), ("with", .required)]

instance : BEq BlockTable where
  beq first second := first.rules.toList == second.rules.toList

@[simp] theorem rule?_empty (name : String) : empty.rule? name = none := by
  simp [empty, rule?]

theorem rule?_insert (table : BlockTable) (added : String) (rule : ArgumentRule)
    (name : String) :
    (table.insert added rule).rule? name =
      if added = name then some rule else table.rule? name := by
  simp [insert, rule?, Std.TreeMap.getElem?_insert, Std.LawfulEqCmp.compare_eq_iff_eq]

end BlockTable

end Stencil
