import Stencil.TemplateError
import Stencil.Value.Basic

/-!
Models from the data of a host. Members of a model have texts for keys, so a host whose data
has other keys cannot hand it to a template.
-/

namespace Stencil.Model

def member? (entry : Value × Value) : Except TemplateError (String × Value) :=
  match entry.1 with
  | .string key => .ok (key, entry.2)
  | _ => .error .keyNotText

def ofEntries (entries : List (Value × Value)) : Except TemplateError Value :=
  (entries.mapM member?).map Value.ofMembers

end Stencil.Model
