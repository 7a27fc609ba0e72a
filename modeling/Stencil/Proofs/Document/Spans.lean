import Stencil.Proofs.Document.Marks

/-!
Changing the places in a document, and nothing else.
-/

namespace Stencil

namespace Node

mutual

def mapSpan (change : Span → Span) : Node → Node
  | .text content span => .text content (change span)
  | .expression path escaped trim span => .expression path escaped trim (change span)
  | .comment content trim span => .comment content trim (change span)
  | .block tags body inverse =>
      .block { tags with span := change tags.span } (mapSpanNodes change body)
        (mapSpanInverse change inverse)
  | .partialTag name scope trim span => .partialTag name scope trim (change span)
termination_by structural node => node

def mapSpanNodes (change : Span → Span) : List Node → List Node
  | [] => []
  | node :: rest => mapSpan change node :: mapSpanNodes change rest
termination_by structural nodes => nodes

def mapSpanInverse (change : Span → Span) : Option (List Node) → Option (List Node)
  | none => none
  | some nodes => some (mapSpanNodes change nodes)
termination_by structural inverse => inverse

end

theorem mapSpanNodes_append (change : Span → Span) (first second : List Node) :
    mapSpanNodes change (first ++ second) =
      mapSpanNodes change first ++ mapSpanNodes change second := by
  induction first with
  | nil => rfl
  | cons node rest inductionHypothesis =>
      rw [List.cons_append, mapSpanNodes, mapSpanNodes, inductionHypothesis, List.cons_append]

mutual

theorem depth_mapSpan (change : Span → Span) : ∀ node : Node,
    (node.mapSpan change).depth = node.depth
  | .text .. => rfl
  | .expression .. => rfl
  | .comment .. => rfl
  | .partialTag .. => rfl
  | .block tags body inverse => by
      rw [mapSpan, depth, depth, depthNodes_mapSpanNodes change body,
        depthInverse_mapSpanInverse change inverse]

private theorem depthNodes_mapSpanNodes (change : Span → Span) : ∀ nodes : List Node,
    depthNodes (mapSpanNodes change nodes) = depthNodes nodes
  | [] => rfl
  | node :: rest => by
      rw [mapSpanNodes, depthNodes, depthNodes, depth_mapSpan change node,
        depthNodes_mapSpanNodes change rest]

private theorem depthInverse_mapSpanInverse (change : Span → Span) : ∀ inverse : Option (List Node),
    depthInverse (mapSpanInverse change inverse) = depthInverse inverse
  | none => rfl
  | some nodes => depthNodes_mapSpanNodes change nodes

end

end Node

def Document.mapSpan (change : Span → Span) (document : Document) : Document :=
  ⟨Node.mapSpanNodes change document.nodes⟩

theorem Document.depth_mapSpan (change : Span → Span) (document : Document) :
    (document.mapSpan change).depth = document.depth :=
  Node.depthNodes_mapSpanNodes change document.nodes

def Span.erase (_ : Span) : Span := .emptyAt .start

/-- A document but for its places. -/
def Document.withoutSpans (document : Document) : Document :=
  document.mapSpan Span.erase

end Stencil
