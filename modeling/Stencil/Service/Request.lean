import Stencil.Service.Basic

/-!
Requests to a service, as data: a history of a service is a list of them.
-/

namespace Stencil

/-- What a service can be asked. -/
inductive Request where
  | compile (source : String)
  | compileNamed (source name : String)
  | compileAndRun (source : String) (model : Value) (name : Option String)
  | run (name : String) (model : Value)
  | remove (name : String)
  | compilePartial (source : String)
  | registerPartial (name source : String)
  | registerNative (name : String) (body : Host → Context → Outcome)
  | renderPartial (name : String) (model : Value)

inductive Reply where
  | template (template : Template)
  | partialBody (body : PartialBody)
  | text (text : String)
  | done
  | removed (existed : Bool)
  | failed (error : TemplateError)

namespace Reply

def ofExcept {α : Type} (onSuccess : α → Reply) : Except TemplateError α → Reply
  | .ok item => onSuccess item
  | .error error => .failed error

end Reply

namespace Service

def answer (service : Service) : Request → Reply × Service
  | .compile source =>
      let (result, service) := service.compile source
      (.ofExcept .template result, service)
  | .compileNamed source name =>
      let (result, service) := service.compileNamed source name
      (.ofExcept .template result, service)
  | .compileAndRun source model name =>
      let (result, service) := service.compileAndRun source model name
      (.ofExcept .text result, service)
  | .run name model => (.ofExcept .text (service.run name model), service)
  | .remove name =>
      let (existed, service) := service.remove name
      (.removed existed, service)
  | .compilePartial source => (.ofExcept .partialBody (service.compilePartial source), service)
  | .registerPartial name source =>
      let (result, service) := service.registerPartial name source
      (.ofExcept (fun _ => .done) result, service)
  | .registerNative name body => (.done, service.insertPartial name (.native body))
  | .renderPartial name model => (.ofExcept .text (service.renderPartial name model), service)

/-- The service after a history of requests. -/
def after (service : Service) (requests : List Request) : Service :=
  requests.foldl (fun service request => (service.answer request).2) service

end Service

end Stencil
