import Stencil.Document.Builder
import Stencil.Document.Pipeline
import Stencil.Partials

/-!
The template service. It compiles sources and keeps two registries, of named templates and of
partials; in both the first entry under a name stays, and only the name of a template can be
freed. A compiled template renders against the partials that are registered when it is run.
-/

namespace Stencil

abbrev Parser := String → Except (List Diagnostic) Document

/-- A parser, and the stages that documents go through after it. -/
structure Compiler where
  parser : Parser
  pipeline : Pipeline

/-- Reads a source and applies the stages; a source with faults reaches none of them. -/
def Compiler.compile (compiler : Compiler) (source : String) :
    Except (List Diagnostic) Document :=
  (compiler.parser source).map compiler.pipeline.apply

/-- A compiled template. Each compilation gives a template of its own, told apart from all
others of the service by its serial number. -/
structure Template where
  serial : Nat
  document : Document
deriving DecidableEq, Repr

/-- A service: how it compiles and renders, what it has stored, and the serial number of the
next template. -/
structure Service where
  compiler : Compiler
  renderer : Renderer
  metadata : Metadata
  nesting : Nat
  templates : Registry Template
  partials : Registry PartialBody
  nextSerial : Nat

namespace Service

def fresh (compiler : Compiler) (renderer : Renderer) (metadata : Metadata) (nesting : Nat) :
    Service :=
  ⟨compiler, renderer, metadata, nesting, .empty, .empty, 0⟩

def host (service : Service) : Host :=
  Partials.host service.renderer service.metadata service.partials service.nesting

def compileDocument (service : Service) (source : String) : Except TemplateError Document :=
  (service.compiler.compile source).mapError .invalidSource

def compile (service : Service) (source : String) : Except TemplateError Template × Service :=
  match service.compileDocument source with
  | .error error => (.error error, service)
  | .ok document =>
      (.ok ⟨service.nextSerial, document⟩,
        { service with nextSerial := service.nextSerial + 1 })

/-- The template of a name; where there is none, compiles the source and stores it. -/
def compileNamed (service : Service) (source name : String) :
    Except TemplateError Template × Service :=
  match service.templates.get? name with
  | some template => (.ok template, service)
  | none =>
      match service.compile source with
      | (.error error, service) => (.error error, service)
      | (.ok template, service) =>
          let (stored, _, templates) := service.templates.insertIfNew name template
          (.ok stored, { service with templates })

def render (service : Service) (template : Template) (model : Value) : Outcome :=
  service.renderer service.host template.document (.ofModel model)

/-- Compiles a source and renders it; with a name that is not empty it is stored. -/
def compileAndRun (service : Service) (source : String) (model : Value)
    (name : Option String) : Outcome × Service :=
  let (compiled, service) :=
    match name.filter fun name => !name.isEmpty with
    | some name => service.compileNamed source name
    | none => service.compile source
  (compiled.bind fun template => service.render template model, service)

def run (service : Service) (name : String) (model : Value) : Outcome :=
  match service.templates.get? name with
  | some template => service.render template model
  | none => .error (.unknownTemplate name)

/-- Frees the name of a template; whether there was one. -/
def remove (service : Service) (name : String) : Bool × Service :=
  (service.templates.contains name,
    { service with templates := service.templates.erase name })

def compilePartial (service : Service) (source : String) : Except TemplateError PartialBody :=
  (service.compileDocument source).map .document

def insertPartial (service : Service) (name : String) (body : PartialBody) : Service :=
  { service with partials := (service.partials.insertIfNew name body).2.2 }

/-- Registers a source as a partial; where the name is taken the source is not read. -/
def registerPartial (service : Service) (name source : String) :
    Except TemplateError Unit × Service :=
  if service.partials.contains name then
    (.ok (), service)
  else
    match service.compilePartial source with
    | .ok body => (.ok (), service.insertPartial name body)
    | .error error => (.error error, service)

def renderBody (service : Service) (body : PartialBody) (context : Context) : Outcome :=
  body.run service.renderer service.host context

def runPartial (service : Service) (name : String) (context : Context) : Outcome :=
  service.host.callPartial name context

def renderPartial (service : Service) (name : String) (model : Value) : Outcome :=
  service.runPartial name (.ofModel model)

end Service

end Stencil
