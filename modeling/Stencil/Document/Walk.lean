import Stencil.Document.Basic

/-!
Walks over documents: in source order, a block before its argument, its body and its inverse.
-/

namespace Stencil

/-- What a walk comes across: a node, a path, or the end of a block. -/
inductive Visit where
  | node (node : Node)
  | path (path : Path)
  | blockEnd (tags : BlockTags)
deriving Repr

namespace Node

variable {σ : Type}

mutual

def walk (visit : σ → Visit → σ) : Node → σ → σ
  | .text content span, state => visit state (.node (.text content span))
  | .expression path escaped trim span, state =>
      visit (visit state (.node (.expression path escaped trim span))) (.path path)
  | .comment content trim span, state => visit state (.node (.comment content trim span))
  | .block tags body inverse, state =>
      let state := visit state (.node (.block tags body inverse))
      let state := visit state (.path tags.argument)
      let state := walkInverse visit inverse (walkNodes visit body state)
      visit state (.blockEnd tags)
  | .partialTag name scope trim span, state =>
      let state := visit state (.node (.partialTag name scope trim span))
      match scope with
      | some path => visit state (.path path)
      | none => state
termination_by structural node => node

def walkNodes (visit : σ → Visit → σ) : List Node → σ → σ
  | [], state => state
  | node :: rest, state => walkNodes visit rest (walk visit node state)
termination_by structural nodes => nodes

def walkInverse (visit : σ → Visit → σ) : Option (List Node) → σ → σ
  | none, state => state
  | some nodes, state => walkNodes visit nodes state
termination_by structural inverse => inverse

end

end Node

def Document.walk {σ : Type} (visit : σ → Visit → σ) (document : Document) (state : σ) : σ :=
  Node.walkNodes visit document.nodes state

namespace Node

mutual

/-- Adds the names of the partials that a node calls to those found before it. -/
def collectPartials : Node → List String → List String
  | .partialTag name _ _ _, names => if name ∈ names then names else names ++ [name]
  | .block _ body inverse, names =>
      collectPartialsInverse inverse (collectPartialsNodes body names)
  | .text .., names | .expression .., names | .comment .., names => names
termination_by structural node => node

def collectPartialsNodes : List Node → List String → List String
  | [], names => names
  | node :: rest, names => collectPartialsNodes rest (collectPartials node names)
termination_by structural nodes => nodes

def collectPartialsInverse : Option (List Node) → List String → List String
  | none, names => names
  | some nodes, names => collectPartialsNodes nodes names
termination_by structural inverse => inverse

end

end Node

/-- The names of the partials that a document calls, each once, in the order of first use. -/
def Document.referencedPartials (document : Document) : List String :=
  Node.collectPartialsNodes document.nodes []

namespace Node

mutual

def mapText (change : String → String) : Node → Node
  | .text content span => .text (change content) span
  | .block tags body inverse =>
      .block tags (mapTextNodes change body) (mapTextInverse change inverse)
  | .expression path escaped trim span => .expression path escaped trim span
  | .comment content trim span => .comment content trim span
  | .partialTag name scope trim span => .partialTag name scope trim span
termination_by structural node => node

def mapTextNodes (change : String → String) : List Node → List Node
  | [] => []
  | node :: rest => mapText change node :: mapTextNodes change rest
termination_by structural nodes => nodes

def mapTextInverse (change : String → String) : Option (List Node) → Option (List Node)
  | none => none
  | some nodes => some (mapTextNodes change nodes)
termination_by structural inverse => inverse

end

end Node

/-- Changes all the text of a document, also within blocks. -/
def Document.mapText (change : String → String) (document : Document) : Document :=
  ⟨Node.mapTextNodes change document.nodes⟩

end Stencil
