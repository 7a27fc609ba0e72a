import Stencil.Document.Basic

/-!
Trimming of a document. A trim mark drops the blanks of the text next to it, up to the nearest
tag: of a sibling on that side, or of the edge of the section that the tag begins or ends. Text
that becomes empty leaves the document.

A section is trimmed in passes: at its edges, within its blocks, then around each of its nodes
from left to right; at last the empty texts are dropped.
-/

namespace Stencil

/-- A text without the blanks at the marked ends. -/
def trimEnds (start stop : Bool) (text : String) : String :=
  let characters := text.toList
  let characters := if start then Text.trimStart characters else characters
  String.ofList (if stop then Text.trimEnd characters else characters)

namespace Node

def isEmptyText : Node → Bool
  | .text content _ => content.isEmpty
  | .expression .. | .comment .. | .block .. | .partialTag .. => false

def trimText (start stop : Bool) : Node → Node
  | .text content span => .text (trimEnds start stop content) span
  | .expression path escaped trim span => .expression path escaped trim span
  | .comment content trim span => .comment content trim span
  | .block tags body inverse => .block tags body inverse
  | .partialTag name scope trim span => .partialTag name scope trim span

/-- Trims the texts at the edges of a section: `start` tells whether the tag before the section
drops the blanks after it, `stop` whether the tag behind it drops the blanks before it. -/
def trimEdges (start stop : Bool) (nodes : List Node) : List Node :=
  let nodes := if start then nodes.modify 0 (trimText true false) else nodes
  if stop then nodes.modify (nodes.length - 1) (trimText false true) else nodes

/-- Trims the texts next to the node at a place, as the marks of that node tell. -/
def trimAround (nodes : Array Node) (place : Nat) : Array Node :=
  match nodes[place]? with
  | none => nodes
  | some node =>
      let nodes :=
        if 0 < place && node.trimsBefore then nodes.modify (place - 1) (trimText false true)
        else nodes
      if node.trimsAfter then nodes.modify (place + 1) (trimText true false) else nodes

def trimSiblings (nodes : List Node) : List Node :=
  ((List.range nodes.length).foldl trimAround nodes.toArray).toList

mutual

def size : Node → Nat
  | .block _ body inverse => sizeNodes body + sizeInverse inverse + 1
  | .text .. | .expression .. | .comment .. | .partialTag .. => 1
termination_by structural node => node

def sizeNodes : List Node → Nat
  | [] => 0
  | node :: rest => size node + sizeNodes rest
termination_by structural nodes => nodes

def sizeInverse : Option (List Node) → Nat
  | none => 0
  | some nodes => sizeNodes nodes
termination_by structural inverse => inverse

end

private theorem size_pos (node : Node) : 0 < node.size := by
  cases node <;> simp [size]

private theorem size_trimText (start stop : Bool) (node : Node) :
    (node.trimText start stop).size = node.size := by
  cases node <;> rfl

private theorem sizeNodes_modify (start stop : Bool) (nodes : List Node) (place : Nat) :
    sizeNodes (nodes.modify place (trimText start stop)) = sizeNodes nodes := by
  induction nodes generalizing place with
  | nil => rw [List.modify_nil]
  | cons node rest inductionHypothesis =>
      cases place with
      | zero => rw [List.modify_zero_cons, sizeNodes, sizeNodes, size_trimText]
      | succ place =>
          rw [List.modify_succ_cons, sizeNodes, sizeNodes, inductionHypothesis]

private theorem sizeNodes_trimEdges (start stop : Bool) (nodes : List Node) :
    sizeNodes (trimEdges start stop nodes) = sizeNodes nodes := by
  unfold trimEdges
  cases start <;> cases stop <;> simp [sizeNodes_modify]

mutual

/-- Trims the sections of a node. -/
def collapse : Node → Node
  | .block tags body none =>
      .block tags (collapseNodes (trimEdges tags.opening.right tags.closing.left body)) none
  | .block tags body (some inverse) =>
      .block tags (collapseNodes (trimEdges tags.opening.right tags.middle.left body))
        (some (collapseNodes (trimEdges tags.middle.right tags.closing.left inverse)))
  | .text content span => .text content span
  | .expression path escaped trim span => .expression path escaped trim span
  | .comment content trim span => .comment content trim span
  | .partialTag name scope trim span => .partialTag name scope trim span
termination_by node => 3 * size node
decreasing_by
  all_goals
    simp only [size, sizeInverse, sizeNodes_trimEdges]
    omega

def collapseNodes (nodes : List Node) : List Node :=
  (trimSiblings (collapseEach nodes)).filter fun node => !node.isEmptyText
termination_by 3 * sizeNodes nodes + 2

def collapseEach : List Node → List Node
  | [] => []
  | node :: rest => collapse node :: collapseEach rest
termination_by nodes => 3 * sizeNodes nodes + 1
decreasing_by
  all_goals
    have positive := size_pos node
    simp only [sizeNodes]
    omega

end

end Node

/-- Applies the trim marks of a document. -/
def Document.collapseWhitespace (document : Document) : Document :=
  ⟨Node.collapseNodes document.nodes⟩

end Stencil
