import Stencil.Document.Builder

/-!
Documents laid flat. A block becomes its opening tag, its body, its middle tag if it has an
inverse section, that section, and its closing tag; each other node stands for itself. Beside it
stands what a single token can contribute to a document, and how deep blocks nest.
-/

namespace Stencil

/-- What one tag or one run of text contributes to a document. A leaf is a node other than a
block. -/
inductive Mark where
  | leaf (node : Node)
  | opening (helper : String) (argument : Path) (trim : Trim) (span : Span)
  | middle (trim : Trim)
  | closing (helper : String) (trim : Trim)
deriving DecidableEq, Repr

namespace Node

mutual

/-- A node laid flat. -/
def marks : Node → List Mark
  | .block tags body inverse =>
      .opening tags.helper tags.argument tags.opening tags.span ::
        (marksNodes body ++ marksInverse tags.middle inverse ++
          [.closing tags.helper tags.closing])
  | .text content span => [.leaf (.text content span)]
  | .expression path escaped trim span => [.leaf (.expression path escaped trim span)]
  | .comment content trim span => [.leaf (.comment content trim span)]
  | .partialTag name scope trim span => [.leaf (.partialTag name scope trim span)]
termination_by structural node => node

def marksNodes : List Node → List Mark
  | [] => []
  | node :: rest => marks node ++ marksNodes rest
termination_by structural nodes => nodes

def marksInverse (middle : Trim) : Option (List Node) → List Mark
  | none => []
  | some nodes => .middle middle :: marksNodes nodes
termination_by structural inverse => inverse

end

theorem marksNodes_append (first second : List Node) :
    marksNodes (first ++ second) = marksNodes first ++ marksNodes second := by
  induction first with
  | nil => rfl
  | cons node rest inductionHypothesis =>
      rw [List.cons_append, marksNodes, marksNodes, inductionHypothesis, List.append_assoc]

theorem marksNodes_singleton (node : Node) :
    marksNodes [node] = marks node := by
  rw [marksNodes, marksNodes, List.append_nil]

theorem marks_block_ne_leaf
    (tags : BlockTags) (body : List Node) (inverse : Option (List Node)) (node : Node) :
    marks (.block tags body inverse) ≠ [.leaf node] := by
  simp [marks]

/-- Induction on sibling nodes that takes all nodes other than blocks together. -/
@[elab_as_elim]
theorem leaves_induction {motive : List Node → Prop}
    (nil : motive [])
    (leaf : ∀ node rest, node.marks = [.leaf node] → motive rest → motive (node :: rest))
    (block : ∀ tags body inverse rest, motive body → motive (inverse.getD []) → motive rest →
      motive (.block tags body inverse :: rest)) (nodes : List Node) :
    motive nodes := by
  induction nodes using siblings_induction with
  | nil => exact nil
  | text _ _ rest inductionHypothesis => exact leaf _ rest rfl inductionHypothesis
  | expression _ _ _ _ rest inductionHypothesis => exact leaf _ rest rfl inductionHypothesis
  | comment _ _ _ rest inductionHypothesis => exact leaf _ rest rfl inductionHypothesis
  | block tags body inverse rest bodyHypothesis inverseHypothesis restHypothesis =>
      exact block tags body inverse rest bodyHypothesis inverseHypothesis restHypothesis
  | partialTag _ _ _ _ rest inductionHypothesis => exact leaf _ rest rfl inductionHypothesis

mutual

/-- How many blocks enclose one another in a node. -/
def depth : Node → Nat
  | .block _ body inverse => max (depthNodes body) (depthInverse inverse) + 1
  | .text .. | .expression .. | .comment .. | .partialTag .. => 0
termination_by structural node => node

def depthNodes : List Node → Nat
  | [] => 0
  | node :: rest => max (depth node) (depthNodes rest)
termination_by structural nodes => nodes

def depthInverse : Option (List Node) → Nat
  | none => 0
  | some nodes => depthNodes nodes
termination_by structural inverse => inverse

end

theorem depthNodes_append (first second : List Node) :
    depthNodes (first ++ second) = max (depthNodes first) (depthNodes second) := by
  induction first with
  | nil => simp [depthNodes]
  | cons node rest inductionHypothesis =>
      rw [List.cons_append, depthNodes, depthNodes, inductionHypothesis, Nat.max_assoc]

theorem depthNodes_singleton (node : Node) :
    depthNodes [node] = depth node := by
  rw [depthNodes, depthNodes, Nat.max_zero]

end Node

namespace Document

def marks (document : Document) : List Mark :=
  Node.marksNodes document.nodes

def depth (document : Document) : Nat :=
  Node.depthNodes document.nodes

end Document

namespace Token

/-- The node of a token that is not a tag of a block. A partial call makes use of its first
argument only. -/
def leaf? (token : Token) : Option Node :=
  match token.kind, token.words with
  | .text, _ => some (.text token.lexeme token.span)
  | .comment, _ => some (.comment token.lexeme token.trim token.span)
  | .escaped, [word] =>
      (Path.read word).toOption.map fun path => .expression path true token.trim token.span
  | .raw, [word] =>
      (Path.read word).toOption.map fun path => .expression path false token.trim token.span
  | .partialTag, [name] => some (.partialTag name none token.trim token.span)
  | .partialTag, name :: word :: _ =>
      (Path.read word).toOption.map fun path =>
        .partialTag name (some path) token.trim token.span
  | _, _ => none

/-- The path of a block's argument. Without a path that can be read it is the current value. -/
def argument : List String → Path
  | [] => .current
  | word :: _ => (Path.read word).toOption.getD .current

/-- What a token contributes to a document that has a place for it. -/
def mark? (token : Token) : Option Mark :=
  match token.kind, token.words with
  | .blockOpen, helper :: arguments =>
      some (.opening helper (argument arguments) token.trim token.span)
  | .elseTag, _ => if token.lexeme.isEmpty then some (.middle token.trim) else none
  | .blockClose, _ => some (.closing token.lexeme token.trim)
  | _, _ => token.leaf?.map .leaf

theorem mark?_of_leaf?
    {token : Token} {node : Node} (reads : token.leaf? = some node) :
    token.mark? = some (.leaf node) := by
  unfold mark?
  split
  · rename_i kind words
    simp [leaf?, kind, words] at reads
  · rename_i kind
    simp [leaf?, kind] at reads
  · rename_i kind
    simp [leaf?, kind] at reads
  · rw [reads, Option.map_some]

theorem marks_of_leaf?
    {token : Token} {node : Node} (reads : token.leaf? = some node) :
    node.marks = [.leaf node] := by
  cases node with
  | block tags body inverse =>
      unfold leaf? at reads
      split at reads <;> simp at reads
  | text => rfl
  | expression => rfl
  | comment => rfl
  | partialTag => rfl

end Token

end Stencil
