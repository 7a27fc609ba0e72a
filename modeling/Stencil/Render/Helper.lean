import Stencil.BlockTable
import Stencil.Context

/-!
Helpers: what blocks do. A helper is given the value of the argument and both sections of the
block, and decides which of them to render, how often, and in which contexts.
-/

namespace Stencil

/-- Appends the text of something in a context to a buffer. -/
abbrev Rendering := Context → String → Outcome

/-- A block as its helper sees it; the argument is none when its path leads to nothing. Besides
the sections of the block a helper can render partials. -/
structure HelperCall where
  name : String
  context : Context
  metadata : Metadata
  callPartial : String → Context → Outcome
  argument : Option Value
  hasInverse : Bool
  body : Rendering
  inverse : Rendering

namespace HelperCall

def isTruthy (call : HelperCall) : Bool :=
  call.argument.any call.metadata.isTruthy

def chosen (call : HelperCall) (main : Bool) (out : String) : Outcome :=
  if main then call.body call.context out else call.inverse call.context out

/-- Renders the body once in each of some contexts; the first error ends it. -/
def eachIn (call : HelperCall) (contexts : List Context) (out : String) : Outcome :=
  contexts.foldlM (fun out context => call.body context out) out

end HelperCall

/-- A helper, and whether its blocks need an argument. -/
structure Helper where
  argument : ArgumentRule
  render : HelperCall → String → Outcome

namespace Helper

def ifTrue : Helper where
  argument := .required
  render call out := call.chosen call.isTruthy out

def unlessTrue : Helper where
  argument := .required
  render call out := call.chosen (!call.isTruthy) out

def within : Helper where
  argument := .required
  render call out :=
    match call.argument with
    | some value =>
        if call.metadata.isTruthy value then call.body (call.context.child value) out
        else call.inverse call.context out
    | none => call.inverse call.context out

def itemContexts (context : Context) (items : List Value) : List Context :=
  items.mapIdx fun index item =>
    (context.child item).withData (.round index items.length none)

def memberContexts (context : Context) (members : List (String × Value)) : List Context :=
  members.mapIdx fun index member =>
    (context.child member.2).withData (.round index members.length (some member.1))

/-- The body for each item of an array or member of an object, where there is one. -/
def forEach : Helper where
  argument := .required
  render call out :=
    match call.argument with
    | some (.array (item :: items)) =>
        call.eachIn (itemContexts call.context (item :: items)) out
    | some (.object (member :: members)) =>
        call.eachIn (memberContexts call.context (member :: members)) out
    | _ => call.inverse call.context out

end Helper

structure HelperTable where
  helpers : Std.TreeMap String Helper

namespace HelperTable

def empty : HelperTable := ⟨∅⟩

/-- Registers a helper in place of any other of its name. -/
def register (table : HelperTable) (name : String) (helper : Helper) : HelperTable :=
  ⟨table.helpers.insert name helper⟩

def get? (table : HelperTable) (name : String) : Option Helper :=
  table.helpers[name]?

def contains (table : HelperTable) (name : String) : Bool :=
  (table.get? name).isSome

def size (table : HelperTable) : Nat :=
  table.helpers.size

def names (table : HelperTable) : List String :=
  table.helpers.keys

def builtin : HelperTable :=
  (((empty.register "if" .ifTrue).register "unless" .unlessTrue).register "each" .forEach).register
    "with" .within

/-- The blocks that a reader has to accept for these helpers. -/
def blockTable (table : HelperTable) : BlockTable :=
  .ofList (table.helpers.toList.map fun entry => (entry.1, entry.2.argument))

@[simp] theorem get?_empty (name : String) : empty.get? name = none := by
  simp [empty, get?]

theorem get?_register (table : HelperTable) (added : String) (helper : Helper)
    (name : String) :
    (table.register added helper).get? name =
      if added = name then some helper else table.get? name := by
  simp [register, get?, Std.TreeMap.getElem?_insert, Std.LawfulEqCmp.compare_eq_iff_eq]

end HelperTable

end Stencil
