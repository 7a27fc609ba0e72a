import Stencil.Proofs.Document.Visits

/-!
Visitors. A visitor has a method for every kind of thing in a document, and each of them may be
its own. The defaults lead from one method to the next; a visitor that acts in its methods and
for the rest does as the defaults do goes where a walk goes.
-/

namespace Stencil

/-- The methods of a visitor, as changes of its state. -/
structure Visitor (σ : Type) where
  document : Document → σ → σ
  nodes : List Node → σ → σ
  node : Node → σ → σ
  text : String → Span → σ → σ
  expression : Path → Bool → Trim → Span → σ → σ
  comment : String → Trim → Span → σ → σ
  block : BlockTags → List Node → Option (List Node) → σ → σ
  partialTag : String → Option Path → Trim → Span → σ → σ
  path : Path → σ → σ

/-- What a visitor does of its own: in the method for all nodes, in those for the kinds of nodes,
there also when a block has been walked through, and in the method for paths. -/
structure Hooks (σ : Type) where
  node : Node → σ → σ
  kind : Node → σ → σ
  blockEnd : BlockTags → σ → σ
  path : Path → σ → σ

namespace Visitor

variable {σ : Type}

def walkNodes (visitor : Visitor σ) (nodes : List Node) (state : σ) : σ :=
  nodes.foldl (fun state node => visitor.node node state) state

def walkNode (visitor : Visitor σ) : Node → σ → σ
  | .text content span => visitor.text content span
  | .expression path escaped trim span => visitor.expression path escaped trim span
  | .comment content trim span => visitor.comment content trim span
  | .block tags body inverse => visitor.block tags body inverse
  | .partialTag name scope trim span => visitor.partialTag name scope trim span

def walkPath (visitor : Visitor σ) : Option Path → σ → σ
  | some path, state => visitor.path path state
  | none, state => state

def walkBlock (visitor : Visitor σ) (tags : BlockTags) (body : List Node)
    (inverse : Option (List Node)) (state : σ) : σ :=
  let state := visitor.nodes body (visitor.path tags.argument state)
  match inverse with
  | some nodes => visitor.nodes nodes state
  | none => state

/-- Whether a visitor acts by its hooks and walks by default. -/
structure Defaults (visitor : Visitor σ) (hooks : Hooks σ) : Prop where
  document (document : Document) (state : σ) :
    visitor.document document state = visitor.nodes document.nodes state
  nodes (nodes : List Node) (state : σ) :
    visitor.nodes nodes state = visitor.walkNodes nodes state
  node (node : Node) (state : σ) :
    visitor.node node state = visitor.walkNode node (hooks.node node state)
  text (content : String) (span : Span) (state : σ) :
    visitor.text content span state = hooks.kind (.text content span) state
  expression (path : Path) (escaped : Bool) (trim : Trim) (span : Span) (state : σ) :
    visitor.expression path escaped trim span state =
      visitor.path path (hooks.kind (.expression path escaped trim span) state)
  comment (content : String) (trim : Trim) (span : Span) (state : σ) :
    visitor.comment content trim span state = hooks.kind (.comment content trim span) state
  block (tags : BlockTags) (body : List Node) (inverse : Option (List Node)) (state : σ) :
    visitor.block tags body inverse state =
      hooks.blockEnd tags
        (visitor.walkBlock tags body inverse (hooks.kind (.block tags body inverse) state))
  partialTag (name : String) (scope : Option Path) (trim : Trim) (span : Span) (state : σ) :
    visitor.partialTag name scope trim span state =
      visitor.walkPath scope (hooks.kind (.partialTag name scope trim span) state)
  path (path : Path) (state : σ) :
    visitor.path path state = hooks.path path state

end Visitor

namespace Hooks

variable {σ : Type}

def visit (hooks : Hooks σ) (state : σ) : Visit → σ
  | .node node => hooks.kind node (hooks.node node state)
  | .path path => hooks.path path state
  | .blockEnd tags => hooks.blockEnd tags state

def visitor (hooks : Hooks σ) : Visitor σ where
  document document := document.walk hooks.visit
  nodes := Node.walkNodes hooks.visit
  node := Node.walk hooks.visit
  text content span := hooks.kind (.text content span)
  expression path escaped trim span state :=
    hooks.path path (hooks.kind (.expression path escaped trim span) state)
  comment content trim span := hooks.kind (.comment content trim span)
  block tags body inverse state :=
    hooks.blockEnd tags (Node.walkInverse hooks.visit inverse (Node.walkNodes hooks.visit body
      (hooks.path tags.argument (hooks.kind (.block tags body inverse) state))))
  partialTag name scope trim span state :=
    match scope with
    | some path => hooks.path path (hooks.kind (.partialTag name scope trim span) state)
    | none => hooks.kind (.partialTag name scope trim span) state
  path := hooks.path

theorem defaults_visitor (hooks : Hooks σ) : hooks.visitor.Defaults hooks where
  document _ _ := rfl
  nodes nodes state := by
    induction nodes generalizing state with
    | nil => rfl
    | cons node rest inductionHypothesis => exact inductionHypothesis _
  node node state := by
    cases node with
    | text | expression | comment | block => rfl
    | partialTag name scope => cases scope <;> rfl
  text _ _ _ := rfl
  expression _ _ _ _ _ := rfl
  comment _ _ _ _ := rfl
  block _ _ inverse _ := by cases inverse <;> rfl
  partialTag _ scope _ _ _ := by cases scope <;> rfl
  path _ _ := rfl

end Hooks

namespace Visitor.Defaults

variable {σ : Type} {visitor : Visitor σ} {hooks : Hooks σ} (defaults : visitor.Defaults hooks)

include defaults

private theorem nodes_cons (node : Node) (rest : List Node) (state : σ) :
    visitor.nodes (node :: rest) state = visitor.nodes rest (visitor.node node state) := by
  rw [defaults.nodes, defaults.nodes, walkNodes, List.foldl_cons, walkNodes]

private theorem nodes_nil (state : σ) :
    visitor.nodes [] state = state := by
  rw [defaults.nodes, walkNodes, List.foldl_nil]

private theorem node_of_leaf {node : Node} (leaf : node.marks = [.leaf node]) (state : σ) :
    visitor.node node state = node.stops.foldl hooks.visit state := by
  cases node with
  | text => rw [defaults.node, walkNode, defaults.text]; rfl
  | expression => rw [defaults.node, walkNode, defaults.expression, defaults.path]; rfl
  | comment => rw [defaults.node, walkNode, defaults.comment]; rfl
  | partialTag name scope =>
      rw [defaults.node, walkNode, defaults.partialTag]
      cases scope with
      | none => rfl
      | some path => rw [walkPath, defaults.path]; rfl
  | block => exact absurd leaf (Node.marks_block_ne_leaf _ _ _ _)

private theorem walkBlock_eq
    (tags : BlockTags) (body : List Node) (inverse : Option (List Node)) (state : σ) :
    visitor.walkBlock tags body inverse state =
      visitor.nodes (inverse.getD []) (visitor.nodes body (hooks.path tags.argument state)) := by
  rw [← defaults.path]
  cases inverse with
  | none =>
      rw [Option.getD_none, defaults.nodes_nil]
      rfl
  | some nodes => rfl

private theorem nodes_eq_foldl (nodes : List Node) (state : σ) :
    visitor.nodes nodes state = (Node.visitsNodes nodes).foldl hooks.visit state := by
  induction nodes using Node.leaves_induction generalizing state with
  | nil => exact defaults.nodes_nil state
  | leaf node rest leaf inductionHypothesis =>
      rw [defaults.nodes_cons, defaults.node_of_leaf leaf, inductionHypothesis,
        Node.visitsNodes_cons_leaf leaf, List.foldl_append]
  | block tags body inverse rest bodyHypothesis inverseHypothesis restHypothesis =>
      rw [defaults.nodes_cons, defaults.node, walkNode, defaults.block, defaults.walkBlock_eq,
        bodyHypothesis, inverseHypothesis, restHypothesis, Node.visitsNodes_cons_block,
        List.foldl_cons, List.foldl_cons, List.foldl_append, List.foldl_append, List.foldl_cons]
      rfl

/-- Every visitor that walks by default acts on the same visits in the same order. -/
theorem document_eq_foldl (document : Document) (state : σ) :
    visitor.document document state = document.visits.foldl hooks.visit state := by
  rw [defaults.document, defaults.nodes_eq_foldl]
  rfl

end Visitor.Defaults

/-- A walk is a fold over the visits of the document, whatever it does at them. -/
theorem Document.walk_eq_foldl
    {σ : Type} (visit : σ → Visit → σ) (document : Document) (state : σ) :
    document.walk visit state = document.visits.foldl visit state := by
  -- The walk is that of the visitor which does in its hooks what the walk does at a visit.
  let hooks : Hooks σ :=
    ⟨fun _ state => state, fun node state => visit state (.node node),
      fun tags state => visit state (.blockEnd tags), fun path state => visit state (.path path)⟩
  have same : hooks.visit = visit := by
    funext state stop
    cases stop <;> rfl
  rw [← same]
  exact hooks.defaults_visitor.document_eq_foldl document state

end Stencil
