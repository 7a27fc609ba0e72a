import Stencil.Diagnostic.Basic

/-!
What can go wrong when a template is compiled or rendered.
-/

namespace Stencil

/-- Why a template gives no text. -/
inductive TemplateError where
  | invalidSource (diagnostics : List Diagnostic)
  | unknownTemplate (name : String)
  | unknownPartial (name : String)
  | unknownHelper (name : String)
  | partialDepthExceeded (name : String) (limit : Nat)
  | keyNotText
deriving DecidableEq, Repr

namespace TemplateError

def message : TemplateError → String
  | .invalidSource diagnostics => Diagnostic.report diagnostics
  | .unknownTemplate name =>
      "no template called " ++ Fault.between name ++ " has been compiled"
  | .unknownPartial name =>
      "no partial template called " ++ Fault.between name ++ " has been registered"
  | .unknownHelper name =>
      "no block helper called " ++ Fault.between name ++ " is registered with the renderer"
  | .partialDepthExceeded name limit =>
      "partial " ++ Fault.between name ++ " exceeded the maximum nesting depth of " ++
        toString limit
  | .keyNotText =>
      "model could not be converted to a template value: key must be a string"

def diagnostics? : TemplateError → Option (List Diagnostic)
  | .invalidSource diagnostics => some diagnostics
  | _ => none

end TemplateError

/-- A text, or the reason why there is none. -/
abbrev Outcome := Except TemplateError String

end Stencil
