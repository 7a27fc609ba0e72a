import Stencil.Service.Settings
import Stencil.Text.Record

/-!
Descriptions in one line: of contexts and values, of the parts of a service, of a service and
of its settings.
-/

namespace Stencil

open Text

namespace Value

mutual

/-- A value with the names of its kinds. -/
def describe : Value → String
  | .null => "Null"
  | .bool b => "Bool(" ++ Record.truth b ++ ")"
  | .number n => "Number(" ++ n.text ++ ")"
  | .string s => "String(" ++ Record.quoted s ++ ")"
  | .array items => "Array " ++ Record.list (describeItems items)
  | .object members => "Object \x7b" ++ ", ".intercalate (describeMembers members) ++ "\x7d"
termination_by structural value => value

def describeItems : List Value → List String
  | [] => []
  | item :: items => item.describe :: describeItems items
termination_by structural items => items

def describeMembers : List (String × Value) → List String
  | [] => []
  | (key, value) :: members =>
      (Record.quoted key ++ ": " ++ value.describe) :: describeMembers members
termination_by structural members => members

end

end Value

def Iteration.describe (data : Iteration) : String :=
  Record.closed "IterationData"
    [("index", toString data.index),
      ("key", Record.optional (data.key.map Record.quoted)),
      ("first", Record.truth data.first),
      ("last", Record.truth data.last)]

/-- The data that the innermost scope itself carries. -/
def Scope.ownData? : Scope → Option Iteration
  | .root _ data => data
  | .nested _ data _ => data

/-- A context: its value, the data that belongs to this value, and its depth. -/
def Context.describe (context : Context) : String :=
  Record.opened "RenderContext"
    [("value", context.value.describe),
      ("data", Record.optional (context.scope.ownData?.map Iteration.describe)),
      ("depth", toString context.depth),
      ("has_parent", Record.truth context.scope.outer?.isSome)]

def Pipeline.describe (pipeline : Pipeline) : String :=
  Record.names pipeline.names

def Compiler.describe (compiler : Compiler) : String :=
  Record.opened "DocumentCompiler" [("pipeline", compiler.pipeline.describe)]

def Registry.describe {α : Type} (registry : Registry α) (name : String) : String :=
  Record.closed name [("names", Record.names registry.names)]

def Registry.describeTemplates {α : Type} (registry : Registry α) : String :=
  registry.describe "TemplateRegistry"

def Registry.describePartials {α : Type} (registry : Registry α) : String :=
  registry.describe "PartialRegistry"

def HelperTable.describe (table : HelperTable) : String :=
  Record.closed "BlockHelpers" [("names", Record.names table.names)]

def RenderOptions.describe (options : RenderOptions) : String :=
  Record.closed "RenderOptions"
    [("escape_html", Record.truth options.escapeHtml),
      ("max_partial_depth", toString options.maxPartialDepth)]

def Service.describe (service : Service) : String :=
  Record.opened "TemplateService"
    [("compiler", service.compiler.describe),
      ("templates", service.templates.describeTemplates),
      ("partials", service.partials.describePartials)]

def Settings.describe (settings : Settings) : String :=
  Record.opened "ServiceBuilder"
    [("custom_parser", Record.truth settings.parser.isSome),
      ("helpers", settings.helpers.describe),
      ("pipeline", settings.pipeline.describe),
      ("custom_renderer", Record.truth settings.renderer.isSome),
      ("custom_metadata", Record.truth settings.metadata.isSome),
      ("options", settings.options.describe)]

end Stencil
