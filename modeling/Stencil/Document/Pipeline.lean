import Stencil.Document.Whitespace

/-!
Pipelines: the stages that change a document between reading and rendering.
-/

namespace Stencil

/-- A named change of documents. -/
structure Stage where
  name : String
  transform : Document → Document

namespace Stage

def whitespaceCollapse : Stage :=
  ⟨"whitespace-collapse", Document.collapseWhitespace⟩

end Stage

/-- Stages in the order in which they are applied. -/
structure Pipeline where
  stages : List Stage

namespace Pipeline

def empty : Pipeline := ⟨[]⟩

def standard : Pipeline := ⟨[.whitespaceCollapse]⟩

def push (pipeline : Pipeline) (stage : Stage) : Pipeline :=
  ⟨pipeline.stages ++ [stage]⟩

def size (pipeline : Pipeline) : Nat :=
  pipeline.stages.length

def names (pipeline : Pipeline) : List String :=
  pipeline.stages.map Stage.name

def apply (pipeline : Pipeline) (document : Document) : Document :=
  pipeline.stages.foldl (fun document stage => stage.transform document) document

end Pipeline

end Stencil
