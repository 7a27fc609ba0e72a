import Mathlib.Data.List.Basic
import Stencil.Document.Walk
import Stencil.Proofs.Document.Marks

/-!
What a walk over a document comes across: its nodes, the paths in their tags, and the ends of its
blocks, laid out in one list of visits.
-/

namespace Stencil

namespace Visit

def node? : Visit → Option Node
  | .node visited => some visited
  | .path _ | .blockEnd _ => none

def path? : Visit → Option Path
  | .path visited => some visited
  | .node _ | .blockEnd _ => none

/-- Whether a node or a path is visited. -/
def isStop : Visit → Bool
  | .node _ | .path _ => true
  | .blockEnd _ => false

end Visit

namespace Node

def partial? : Node → Option String
  | .partialTag name _ _ _ => some name
  | .text .. | .expression .. | .comment .. | .block .. => none

def path? : Node → Option Path
  | .expression path _ _ _ => some path
  | .block tags _ _ => some tags.argument
  | .partialTag _ scope _ _ => scope
  | .text .. | .comment .. => none

/-- The stops at a node itself: the node, then the path in its tag. -/
def stops (node : Node) : List Visit :=
  .node node :: (node.path?.map Visit.path).toList

mutual

def visits : Node → List Visit
  | .block tags body inverse =>
      stops (.block tags body inverse) ++
        (visitsNodes body ++ visitsInverse inverse ++ [.blockEnd tags])
  | .text content span => stops (.text content span)
  | .expression path escaped trim span => stops (.expression path escaped trim span)
  | .comment content trim span => stops (.comment content trim span)
  | .partialTag name scope trim span => stops (.partialTag name scope trim span)
termination_by structural node => node

def visitsNodes : List Node → List Visit
  | [] => []
  | node :: rest => visits node ++ visitsNodes rest
termination_by structural nodes => nodes

def visitsInverse : Option (List Node) → List Visit
  | none => []
  | some nodes => visitsNodes nodes
termination_by structural inverse => inverse

end

private theorem visits_of_leaf {node : Node} (leaf : node.marks = [.leaf node]) :
    node.visits = node.stops := by
  cases node with
  | text | expression | comment | partialTag => rfl
  | block => exact absurd leaf (marks_block_ne_leaf _ _ _ _)

theorem visitsNodes_cons_leaf
    {node : Node} (leaf : node.marks = [.leaf node]) (rest : List Node) :
    visitsNodes (node :: rest) = node.stops ++ visitsNodes rest := by
  rw [visitsNodes, visits_of_leaf leaf]

theorem visitsNodes_cons_block
    (tags : BlockTags) (body : List Node) (inverse : Option (List Node)) (rest : List Node) :
    visitsNodes (.block tags body inverse :: rest) =
      .node (.block tags body inverse) :: .path tags.argument ::
        (visitsNodes body ++ visitsNodes (inverse.getD []) ++
          .blockEnd tags :: visitsNodes rest) := by
  cases inverse <;> simp [visitsNodes, visits, visitsInverse, stops, path?]

/-- The nodes that are visited among sibling nodes. -/
def visited (nodes : List Node) : List Node :=
  (visitsNodes nodes).filterMap Visit.node?

theorem visited_nil : visited [] = [] := rfl

private theorem filterMap_node?_stops (node : Node) :
    node.stops.filterMap Visit.node? = [node] := by
  rw [stops]
  cases node.path? <;> rfl

theorem visited_cons_leaf
    {node : Node} (leaf : node.marks = [.leaf node]) (rest : List Node) :
    visited (node :: rest) = node :: visited rest := by
  rw [visited, visitsNodes_cons_leaf leaf, List.filterMap_append, filterMap_node?_stops]
  rfl

theorem visited_cons_block
    (tags : BlockTags) (body : List Node) (inverse : Option (List Node)) (rest : List Node) :
    visited (.block tags body inverse :: rest) =
      .block tags body inverse ::
        (visited body ++ visited (inverse.getD []) ++ visited rest) := by
  simp [visited, visitsNodes_cons_block, Visit.node?, List.filterMap_cons]

private theorem filter_isStop_stops (node : Node) :
    node.stops.filter Visit.isStop = node.stops := by
  rw [stops]
  cases node.path? <;> rfl

private theorem filterMap_path?_stops (node : Node) :
    node.stops.filterMap Visit.path? = node.path?.toList := by
  rw [stops]
  cases node.path? <;> rfl

/-- The stops of a walk are those at the visited nodes, one node after the other. -/
theorem filter_isStop_visitsNodes (nodes : List Node) :
    (visitsNodes nodes).filter Visit.isStop = (visited nodes).flatMap stops := by
  induction nodes using leaves_induction with
  | nil => rfl
  | leaf node rest leaf inductionHypothesis =>
      rw [visitsNodes_cons_leaf leaf, visited_cons_leaf leaf, List.filter_append,
        filter_isStop_stops, inductionHypothesis, List.flatMap_cons]
  | block tags body inverse rest bodyHypothesis inverseHypothesis restHypothesis =>
      rw [visitsNodes_cons_block, visited_cons_block, List.filter_cons_of_pos rfl,
        List.filter_cons_of_pos rfl, List.filter_append, List.filter_append,
        List.filter_cons_of_neg Bool.false_ne_true, bodyHypothesis, inverseHypothesis,
        restHypothesis, List.flatMap_cons, List.flatMap_append, List.flatMap_append]
      rfl

theorem filterMap_path?_visitsNodes (nodes : List Node) :
    (visitsNodes nodes).filterMap Visit.path? = (visited nodes).filterMap path? := by
  calc (visitsNodes nodes).filterMap Visit.path?
    _ = ((visitsNodes nodes).filter Visit.isStop).filterMap Visit.path? := by
        rw [List.filterMap_filter]
        refine List.filterMap_congr fun visit _ => ?_
        cases visit <;> rfl
    _ = (visited nodes).flatMap fun node => node.stops.filterMap Visit.path? := by
        rw [filter_isStop_visitsNodes, List.filterMap_flatMap]
    _ = (visited nodes).filterMap path? := by
        rw [List.filterMap_eq_flatMap_toList]
        simp only [filterMap_path?_stops]

end Node

namespace Document

def visits (document : Document) : List Visit :=
  Node.visitsNodes document.nodes

def visited (document : Document) : List Node :=
  document.visits.filterMap Visit.node?

end Document

end Stencil
