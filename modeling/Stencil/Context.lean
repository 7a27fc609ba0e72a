import Stencil.Metadata
import Stencil.Path.Basic
import Stencil.TemplateError

/-!
Contexts: what paths are looked up in. The current value stands at the inner end of a chain of
scopes, the model at its outer end; a scope may carry the data of an iteration. A context also
counts the partials that are being rendered around it.
-/

namespace Stencil

/-- The data of one round of an iteration; the key is that of the member of an object. -/
structure Iteration where
  index : Nat
  key : Option String
  first : Bool
  last : Bool
deriving DecidableEq, Repr, Inhabited

/-- The greatest index: indices are words of sixty-four bits. -/
def Iteration.maxIndex : Nat := Text.wordBound - 1

/-- Whether a round is the last of `count` rounds. Counts wrap around, so that the round after
the greatest index would bring the count back to zero. -/
def Iteration.isLast (index count : Nat) : Bool :=
  index + 1 == count || (index == maxIndex && count == 0)

def Iteration.round (index count : Nat) (key : Option String) : Iteration :=
  ⟨index, key, index == 0, isLast index count⟩

/-- A round that takes place is the last when no index of a round follows its own. -/
theorem Iteration.isLast_iff {index count : Nat} (positive : 0 < count) :
    isLast index count = true ↔ index + 1 = count := by
  have nonzero : count ≠ 0 := by omega
  simp [isLast, nonzero]

inductive Scope where
  | root (model : Value) (data : Option Iteration)
  | nested (value : Value) (data : Option Iteration) (outer : Scope)
deriving Inhabited

namespace Scope

def value : Scope → Value
  | .root model _ => model
  | .nested value _ _ => value

def model : Scope → Value
  | .root model _ => model
  | .nested _ _ outer => outer.model

def outer? : Scope → Option Scope
  | .root _ _ => none
  | .nested _ _ outer => some outer

/-- The data of the innermost scope that has any. -/
def data? : Scope → Option Iteration
  | .root _ data => data
  | .nested _ (some data) _ => some data
  | .nested _ none outer => outer.data?

def withData (data : Iteration) : Scope → Scope
  | .root model _ => .root model (some data)
  | .nested value _ outer => .nested value (some data) outer

def climb : Nat → Scope → Option Scope
  | 0, scope => some scope
  | _ + 1, .root _ _ => none
  | levels + 1, .nested _ _ outer => climb levels outer

def dataValue? (scope : Scope) (name : String) : Option Value :=
  if name = "root" then some scope.model
  else
    match scope.data? with
    | none => none
    | some data =>
        if name = "index" then some (.ofNat data.index)
        else if name = "first" then some (.bool data.first)
        else if name = "last" then some (.bool data.last)
        else if name = "key" then data.key.map .string
        else none

def start? (scope : Scope) : Path.Root → Option Value
  | .context => some scope.value
  | .data name => scope.dataValue? name

end Scope

/-- A scope, and the number of partials that are being rendered. -/
structure Context where
  scope : Scope
  depth : Nat
deriving Inhabited

namespace Context

def ofModel (model : Value) : Context :=
  ⟨.root model none, 0⟩

def value (context : Context) : Value :=
  context.scope.value

def model (context : Context) : Value :=
  context.scope.model

def parent? (context : Context) : Option Value :=
  context.scope.outer?.map Scope.value

def data? (context : Context) : Option Iteration :=
  context.scope.data?

def child (context : Context) (value : Value) : Context :=
  ⟨.nested value none context.scope, context.depth⟩

/-- The context that a partial is rendered in: that of a value within this one, or without a
value this one. -/
def forPartial (context : Context) : Option Value → Context
  | some value => ⟨.nested value none context.scope, context.depth + 1⟩
  | none => ⟨context.scope, context.depth + 1⟩

def withData (context : Context) (data : Iteration) : Context :=
  ⟨context.scope.withData data, context.depth⟩

def follow (metadata : Metadata) (value : Value) (segments : List String) : Option Value :=
  segments.foldlM metadata.member value

/-- The value that a path denotes, if all of it is there. -/
def lookup (metadata : Metadata) (context : Context) (path : Path) : Option Value :=
  match context.scope.climb path.parents with
  | none => none
  | some scope =>
      match scope.start? path.root with
      | none => none
      | some value => follow metadata value path.segments

end Context

/-- What rendering needs from its surroundings: an account of values, and the partials. -/
structure Host where
  metadata : Metadata
  callPartial : String → Context → Outcome

end Stencil
