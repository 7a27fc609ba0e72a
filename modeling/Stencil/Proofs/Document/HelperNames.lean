import Stencil.Document.Pipeline
import Stencil.Proofs.Document.Respelling
import Stencil.Proofs.Reading.Strict

/-!
The helpers that the blocks of a document call for. Reading a source gives helpers of the block
table only, trimming keeps the helpers as they are, and a pipeline adds none where its stages
add none.
-/

namespace Stencil

def Mark.helper? : Mark → Option String
  | .opening helper _ _ _ => some helper
  | _ => none

namespace Node

def helpers (nodes : List Node) : List String :=
  (marksNodes nodes).filterMap Mark.helper?

theorem helpers_cons_of_leaf
    {node : Node} (leaf : node.marks = [.leaf node]) (rest : List Node) :
    helpers (node :: rest) = helpers rest := by
  rw [helpers, marksNodes, leaf]
  rfl

theorem helpers_cons_block
    (tags : BlockTags) (body : List Node) (inverse : Option (List Node)) (rest : List Node) :
    helpers (.block tags body inverse :: rest) =
      tags.helper :: (helpers body ++ helpers (inverse.getD []) ++ helpers rest) := by
  cases inverse <;>
    simp [helpers, marksNodes, marks, marksInverse, List.filterMap_cons, Mark.helper?]

end Node

namespace Document

def helpers (document : Document) : List String :=
  Node.helpers document.nodes

theorem mem_helpers_of_opening
    {document : Document} {helper : String} {argument : Path} {trim : Trim} {span : Span}
    (member : .opening helper argument trim span ∈ document.marks) :
    helper ∈ document.helpers :=
  List.mem_filterMap.mpr ⟨_, member, rfl⟩

private theorem helpers_collapseWhitespace (document : Document) :
    document.collapseWhitespace.helpers = document.helpers := by
  apply filterMap_marks_collapseWhitespace
  intro mark text
  cases mark with
  | leaf => rfl
  | opening => exact Bool.noConfusion text
  | middle | closing => rfl

end Document

private theorem Grammar.Section.contains_of_mem_helpers
    {table : BlockTable} {tokens : List Token} {nodes : List Node}
    (derived : Section table tokens nodes) {helper : String}
    (member : helper ∈ Node.helpers nodes) : table.contains helper = true := by
  induction derived with
  | nil => exact absurd member List.not_mem_nil
  | leaf leaf _ inductionHypothesis =>
      rw [Node.helpers_cons_of_leaf (Token.marks_of_leaf? leaf.leaf?_eq)] at member
      exact inductionHypothesis member
  | block opens _ _ _ bodyHypothesis restHypothesis =>
      rw [Node.helpers_cons_block, List.mem_cons, List.mem_append, List.mem_append] at member
      rcases member with rfl | (inBody | inInverse) | inRest
      · exact opens.known
      · exact bodyHypothesis inBody
      · exact absurd inInverse List.not_mem_nil
      · exact restHypothesis inRest
  | dividedBlock opens _ _ _ _ _ bodyHypothesis inverseHypothesis restHypothesis =>
      rw [Node.helpers_cons_block, List.mem_cons, List.mem_append, List.mem_append] at member
      rcases member with rfl | (inBody | inInverse) | inRest
      · exact opens.known
      · exact bodyHypothesis inBody
      · exact inverseHypothesis inInverse
      · exact restHypothesis inRest

theorem Document.contains_of_read
    {table : BlockTable} {source : String} {document : Document}
    (accepted : read table source = .ok document) {helper : String}
    (member : helper ∈ document.helpers) : table.contains helper = true :=
  (section_of_read accepted).contains_of_mem_helpers member

/-- Whether a stage leaves every document without blocks of other helpers. -/
def Stage.AddsNoHelpers (stage : Stage) : Prop :=
  ∀ document, (stage.transform document).helpers ⊆ document.helpers

theorem Stage.whitespaceCollapse_addsNoHelpers : whitespaceCollapse.AddsNoHelpers := by
  intro document
  show document.collapseWhitespace.helpers ⊆ document.helpers
  rw [Document.helpers_collapseWhitespace]
  exact List.Subset.refl _

theorem Pipeline.helpers_apply_subset
    (pipeline : Pipeline) (addNone : ∀ stage ∈ pipeline.stages, stage.AddsNoHelpers)
    (document : Document) : (pipeline.apply document).helpers ⊆ document.helpers := by
  obtain ⟨stages⟩ := pipeline
  rw [apply]
  dsimp only at addNone ⊢
  induction stages generalizing document with
  | nil => exact List.Subset.refl _
  | cons stage rest inductionHypothesis =>
      rw [List.forall_mem_cons] at addNone
      rw [List.foldl_cons]
      exact List.Subset.trans (inductionHypothesis _ addNone.2) (addNone.1 document)

end Stencil
