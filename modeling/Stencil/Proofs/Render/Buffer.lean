import Stencil.Proofs.Render.Passages

/-!
Rendering appends. What a buffer holds already stays in front of the text and decides nothing,
and sibling nodes are rendered one after the other.
-/

namespace Stencil

section Behind

variable {before : String}

private theorem bind_behind
    {next : String → Outcome}
    (behind : ∀ text, next (before ++ text) = (next text).map fun later => before ++ later)
    (outcome : Outcome) :
    (outcome.map fun text => before ++ text).bind next =
      (outcome.bind next).map fun text => before ++ text := by
  cases outcome with
  | error error => rfl
  | ok text => exact behind text

private theorem foldlM_behind
    {α : Type} {items : List α} {take : String → α → Outcome}
    (each : ∀ item ∈ items, ∀ out,
      take (before ++ out) item = (take out item).map fun text => before ++ text)
    (out : String) :
    items.foldlM take (before ++ out) =
      (items.foldlM take out).map fun text => before ++ text := by
  induction items generalizing out with
  | nil => rfl
  | cons item rest inductionHypothesis =>
      rw [List.forall_mem_cons] at each
      rw [List.foldlM_cons, List.foldlM_cons, each.1]
      exact bind_behind (inductionHypothesis each.2) (take out item)

end Behind

namespace Style

variable (style : Style) (host : Host)

private theorem appendValue_behind
    (metadata : Metadata) (path : Path) (escaped : Bool) (context : Context)
    (before out : String) :
    style.appendValue metadata path escaped context (before ++ out) =
      before ++ style.appendValue metadata path escaped context out := by
  unfold appendValue
  split
  · rfl
  · split
    · rw [Text.escapeInto_eq_append, Text.escapeInto_eq_append out, String.append_assoc]
    · rw [String.append_assoc]

private theorem appendPartial_behind
    (name : String) (scope : Option Path) (context : Context) (before out : String) :
    style.appendPartial host name scope context (before ++ out) =
      (style.appendPartial host name scope context out).map fun text => before ++ text := by
  unfold appendPartial
  split
  · rfl
  · cases host.callPartial name
        (context.forPartial (partialScope host.metadata context scope)) with
    | error error => rfl
    | ok text => exact congrArg Except.ok String.append_assoc

/-- What is in the buffer before a rendering stays in front of its text. -/
theorem renderNodes_behind
    (standard : style.helpers = .builtin) (before : String) (nodes : List Node)
    (context : Context) (out : String) :
    style.renderNodes host nodes context (before ++ out) =
      (style.renderNodes host nodes context out).map fun text => before ++ text := by
  induction nodes using Node.siblings_induction generalizing context out with
  | nil =>
      rw [renderNodes_nil, renderNodes_nil]
      rfl
  | text content span rest inductionHypothesis =>
      rw [renderNodes_text, renderNodes_text, String.append_assoc]
      exact inductionHypothesis context _
  | comment content trim span rest inductionHypothesis =>
      rw [renderNodes_comment, renderNodes_comment]
      exact inductionHypothesis context out
  | expression path escaped trim span rest inductionHypothesis =>
      rw [renderNodes_expression, renderNodes_expression, appendValue_behind]
      exact inductionHypothesis context _
  | block tags body inverse rest bodyHypothesis inverseHypothesis restHypothesis =>
      rw [renderNodes_cons, renderNodes_cons, renderNode_block style host standard,
        renderNode_block style host standard]
      cases found : passages? host.metadata context tags body inverse with
      | none => rfl
      | some passages =>
          dsimp only
          rw [foldlM_behind, bind_behind]
          · exact restHypothesis context
          · intro passage member out
            rw [renderPassage, renderPassage]
            rcases nodes_of_mem_passages? found member with nodes | nodes
            · rw [nodes]
              exact bodyHypothesis passage.context out
            · rw [nodes]
              exact inverseHypothesis passage.context out
  | partialTag name scope trim span rest inductionHypothesis =>
      rw [renderNodes_partialTag, renderNodes_partialTag, appendPartial_behind, bind_behind]
      exact inductionHypothesis context

theorem renderNodes_eq_map
    (standard : style.helpers = .builtin) (nodes : List Node) (context : Context)
    (out : String) :
    style.renderNodes host nodes context out =
      (style.renderNodes host nodes context "").map fun text => out ++ text := by
  rw [← style.renderNodes_behind host standard out nodes context "", String.append_empty]

theorem renderNode_eq_map
    (standard : style.helpers = .builtin) (node : Node) (context : Context) (out : String) :
    style.renderNode host node context out =
      (style.renderNode host node context "").map fun text => out ++ text := by
  have alone (out : String) :
      style.renderNodes host [node] context out = style.renderNode host node context out := by
    rw [renderNodes_cons]
    cases style.renderNode host node context out with
    | error error => rfl
    | ok text => exact style.renderNodes_nil host context text
  rw [← alone, ← alone]
  exact style.renderNodes_eq_map host standard [node] context out

theorem renderNodes_append
    (first second : List Node) (context : Context) (out : String) :
    style.renderNodes host (first ++ second) context out =
      (style.renderNodes host first context out).bind
        (style.renderNodes host second context) := by
  induction first generalizing out with
  | nil =>
      rw [renderNodes_nil]
      rfl
  | cons node rest inductionHypothesis =>
      rw [List.cons_append, renderNodes_cons, renderNodes_cons]
      cases style.renderNode host node context out with
      | error error => rfl
      | ok text => exact inductionHypothesis text

end Style

end Stencil
