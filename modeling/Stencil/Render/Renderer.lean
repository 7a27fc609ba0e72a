import Stencil.Document.Basic
import Stencil.Render.Helper
import Stencil.Text.Escape

/-!
Rendering: the text of a document in a context. Text stands for itself, comments for nothing,
an expression for the text of its value, a block for what its helper makes of it, and a partial
for the text that the host gives. Everything is appended to one buffer in order, and the first
error ends the rendering.
-/

namespace Stencil

abbrev Renderer := Host → Document → Context → Outcome

structure RenderOptions where
  escapeHtml : Bool
  maxPartialDepth : Nat
deriving DecidableEq, Repr

/-- HTML is escaped, and partials nest up to sixty-four deep. -/
def RenderOptions.standard : RenderOptions := ⟨true, 64⟩

/-- Settings and helpers: all that a rendering of documents depends on. -/
structure Style where
  options : RenderOptions
  helpers : HelperTable

namespace Style

def standard : Style := ⟨.standard, .builtin⟩

/-- Appends the text of a value that a path denotes; nothing where there is no such value. -/
def appendValue (style : Style) (metadata : Metadata) (path : Path) (escaped : Bool)
    (context : Context) (out : String) : String :=
  match context.lookup metadata path with
  | none => out
  | some value =>
      if escaped && style.options.escapeHtml then
        Text.escapeInto out (metadata.display value)
      else
        out ++ metadata.display value

/-- The value that a partial is called with: where its path leads to nothing, null. -/
def partialScope (metadata : Metadata) (context : Context) (scope : Option Path) :
    Option Value :=
  scope.map fun path => (context.lookup metadata path).getD .null

/-- Appends the text of a partial, unless too many of them are being rendered. -/
def appendPartial (style : Style) (host : Host) (name : String) (scope : Option Path)
    (context : Context) (out : String) : Outcome :=
  if style.options.maxPartialDepth ≤ context.depth then
    .error (.partialDepthExceeded name style.options.maxPartialDepth)
  else
    (host.callPartial name (context.forPartial (partialScope host.metadata context scope))).map
      fun text => out ++ text

mutual

def renderNode (style : Style) (host : Host) : Node → Rendering
  | .text content _ => fun _ out => .ok (out ++ content)
  | .comment _ _ _ => fun _ out => .ok out
  | .expression path escaped _ _ => fun context out =>
      .ok (style.appendValue host.metadata path escaped context out)
  | .block tags body inverse => fun context out =>
      match style.helpers.get? tags.helper with
      | none => .error (.unknownHelper tags.helper)
      | some helper =>
          helper.render
            { name := tags.helper
              context
              metadata := host.metadata
              callPartial := host.callPartial
              argument := context.lookup host.metadata tags.argument
              hasInverse := inverse.isSome
              body := renderNodes style host body
              inverse := renderInverse style host inverse }
            out
  | .partialTag name scope _ _ => style.appendPartial host name scope
termination_by structural node => node

def renderNodes (style : Style) (host : Host) : List Node → Rendering
  | [] => fun _ out => .ok out
  | node :: rest => fun context out =>
      match renderNode style host node context out with
      | .ok out => renderNodes style host rest context out
      | .error error => .error error
termination_by structural nodes => nodes

def renderInverse (style : Style) (host : Host) : Option (List Node) → Rendering
  | none => fun _ out => .ok out
  | some nodes => renderNodes style host nodes
termination_by structural inverse => inverse

end

def render (style : Style) : Renderer := fun host document context =>
  renderNodes style host document.nodes context ""

end Style

end Stencil
