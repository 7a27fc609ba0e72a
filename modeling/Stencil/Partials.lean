import Stencil.Registry
import Stencil.Render.Renderer

/-!
Partials: named pieces that templates call. A partial is a document, or a function of the host
that may call other partials in turn. Calls nest to a bounded depth, so that rendering ends
also where partials call each other in a circle.
-/

namespace Stencil

inductive PartialBody where
  | document (document : Document)
  | native (run : Host → Context → Outcome)

def PartialBody.run (body : PartialBody) (renderer : Renderer) (host : Host)
    (context : Context) : Outcome :=
  match body with
  | .document template => renderer host template context
  | .native run => run host context

namespace Partials

def Documents (table : Registry PartialBody) : Prop :=
  ∀ name body, table.get? name = some body → ∃ document, body = .document document

/-- Calls a partial by name; calls may nest as often as the first number says. -/
def call (renderer : Renderer) (metadata : Metadata) (table : Registry PartialBody) :
    Nat → String → Context → Outcome
  | nesting, name, context =>
      match table.get? name with
      | none => .error (.unknownPartial name)
      | some body =>
          match nesting with
          | 0 => .error (.partialDepthExceeded name context.depth)
          | nesting + 1 =>
              body.run renderer ⟨metadata, call renderer metadata table nesting⟩ context

theorem call_of_free
    (renderer : Renderer) (metadata : Metadata) {table : Registry PartialBody} (nesting : Nat)
    {name : String} (context : Context) (free : table.get? name = none) :
    call renderer metadata table nesting name context = .error (.unknownPartial name) := by
  unfold call
  rw [free]

theorem call_succ
    (renderer : Renderer) (metadata : Metadata) {table : Registry PartialBody} (nesting : Nat)
    {name : String} {body : PartialBody} (context : Context)
    (found : table.get? name = some body) :
    call renderer metadata table (nesting + 1) name context =
      body.run renderer ⟨metadata, call renderer metadata table nesting⟩ context := by
  rw [call, found]

/-- A bound on nested calls that rendering by the standard rules never meets: documents call
partials below the limit only, and between two documents each native partial runs once. -/
def nestingBound (table : Registry PartialBody) (limit : Nat) : Nat :=
  limit + table.size + 1

def host (renderer : Renderer) (metadata : Metadata) (table : Registry PartialBody)
    (limit : Nat) : Host :=
  ⟨metadata, call renderer metadata table (nestingBound table limit)⟩

end Partials

end Stencil
