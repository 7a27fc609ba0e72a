/-!
Paths: how a template refers to a value. A path climbs some levels of the enclosing contexts,
starts at the value found there or at a data variable, and follows member names from it.
-/

namespace Stencil

namespace Path

/-- Where a path starts: at the value of a context, or at a data variable such as the index of
the current item. -/
inductive Root where
  | context
  | data (name : String)
deriving DecidableEq, Repr, Inhabited

end Path

/-- A reference to a value: the levels to climb, the start, and the members to follow. -/
structure Path where
  parents : Nat
  root : Path.Root
  segments : List String
deriving DecidableEq, Repr, Inhabited

namespace Path

def current : Path := ⟨0, .context, []⟩

def isCurrent (path : Path) : Bool :=
  path = current

def displayStart : Root → List String → String
  | .context, [] => "this"
  | .context, segments => ".".intercalate segments
  | .data name, [] => "@" ++ name
  | .data name, segments => "@" ++ name ++ "." ++ ".".intercalate segments

def display (path : Path) : String :=
  String.join (List.replicate path.parents "../") ++ displayStart path.root path.segments

end Path

end Stencil
