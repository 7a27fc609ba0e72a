import Stencil.Service.Basic

/-!
Settings of a service. Every setting has a standard value; the standard parser accepts exactly
the blocks that have helpers.
-/

namespace Stencil

/-- What a service is made from; a part that is none has its standard value. -/
structure Settings where
  parser : Option Parser
  helpers : HelperTable
  pipeline : Pipeline
  renderer : Option Renderer
  metadata : Option Metadata
  options : RenderOptions

namespace Settings

def standard : Settings :=
  ⟨none, .builtin, .standard, none, none, .standard⟩

def withParser (settings : Settings) (parser : Parser) : Settings :=
  { settings with parser := some parser }

def withHelper (settings : Settings) (name : String) (helper : Helper) : Settings :=
  { settings with helpers := settings.helpers.register name helper }

def withStage (settings : Settings) (stage : Stage) : Settings :=
  { settings with pipeline := settings.pipeline.push stage }

def withPipeline (settings : Settings) (pipeline : Pipeline) : Settings :=
  { settings with pipeline }

/-- Replaces the renderer, which then decides about escaping and nesting. -/
def withRenderer (settings : Settings) (renderer : Renderer) : Settings :=
  { settings with renderer := some renderer }

def withMetadata (settings : Settings) (metadata : Metadata) : Settings :=
  { settings with metadata := some metadata }

def withEscapeHtml (settings : Settings) (escapeHtml : Bool) : Settings :=
  { settings with options := { settings.options with escapeHtml } }

def withMaxPartialDepth (settings : Settings) (maxPartialDepth : Nat) : Settings :=
  { settings with options := { settings.options with maxPartialDepth } }

/-- The way documents are rendered unless another renderer is set. -/
def style (settings : Settings) : Style :=
  ⟨settings.options, settings.helpers⟩

def build (settings : Settings) : Service :=
  let parser := settings.parser.getD (Document.read settings.helpers.blockTable)
  .fresh ⟨parser, settings.pipeline⟩ (settings.renderer.getD settings.style.render)
    (settings.metadata.getD .standard) settings.options.maxPartialDepth

end Settings

end Stencil
