import Stencil.Proofs.Document.HelperNames

/-!
The helpers of the nodes that a builder holds. A block becomes a node only if it is kept, and
only a block of the table is; so whatever is at fault, no node has a foreign helper.
-/

namespace Stencil

namespace Node

private theorem helpers_append (first second : List Node) :
    helpers (first ++ second) = helpers first ++ helpers second := by
  rw [helpers, marksNodes_append, List.filterMap_append, helpers, helpers]

private theorem helpers_of_leaf? {token : Token} {node : Node} (reads : token.leaf? = some node) :
    helpers [node] = [] := by
  rw [helpers_cons_of_leaf (Token.marks_of_leaf? reads), helpers, marksNodes,
    List.filterMap_nil]

end Node

namespace OpenBlock

def helpers (block : OpenBlock) : List String :=
  Node.helpers block.body.toList ++ Node.helpers ((block.inverse.map Array.toList).getD [])

private theorem mem_helpers_push {block : OpenBlock} {node : Node} {helper : String} :
    helper ∈ (block.push node).helpers ↔
      helper ∈ block.helpers ∨ helper ∈ Node.helpers [node] := by
  cases inverse : block.inverse with
  | none =>
      rw [push_of_whole inverse]
      simp only [helpers, inverse, Array.toList_push, Node.helpers_append, List.mem_append]
      tauto
  | some nodes =>
      rw [push_of_divided inverse]
      simp only [helpers, inverse, Option.map_some, Option.getD_some, Array.toList_push,
        Node.helpers_append, List.mem_append]
      tauto

private theorem helpers_invert {block : OpenBlock} (whole : block.inverse = none) (trim : Trim) :
    (block.invert trim).helpers = block.helpers := by
  simp [helpers, invert, whole]

private theorem helpers_close (block : OpenBlock) (trim : Trim) :
    Node.helpers [block.close trim] = block.name :: block.helpers := by
  have nothing : Node.helpers [] = [] := by
    rw [Node.helpers, Node.marksNodes, List.filterMap_nil]
  rw [close, Node.helpers_cons_block, nothing, List.append_nil, helpers, name]

end OpenBlock

namespace Builder

/-- Whether the nodes of a builder have helpers of a table only. A block that is not kept may
have any name, as it becomes no node; but the blocks within it may not. -/
structure Familiar (table : BlockTable) (builder : Builder) : Prop where
  nodes : ∀ helper ∈ Node.helpers builder.nodes.toList, table.contains helper = true
  sections : ∀ block ∈ builder.blocks, ∀ helper ∈ block.helpers, table.contains helper = true
  names : ∀ block ∈ builder.blocks, block.kept = true → table.contains block.name = true

variable {table : BlockTable} {builder : Builder}

theorem Familiar.push
    {node : Node} (familiar : builder.Familiar table)
    (known : ∀ helper ∈ Node.helpers [node], table.contains helper = true) :
    (builder.push node).Familiar table := by
  obtain ⟨nodes, sections, names⟩ := familiar
  cases blocks : builder.blocks with
  | nil =>
      rw [push_outside blocks]
      refine ⟨?_, sections, names⟩
      intro helper member
      rw [Array.toList_push, Node.helpers_append, List.mem_append] at member
      exact member.elim (nodes helper) (known helper)
  | cons block outer =>
      rw [blocks, List.forall_mem_cons] at sections names
      rw [push_inside blocks]
      refine ⟨nodes, List.forall_mem_cons.mpr ⟨?_, sections.2⟩,
        List.forall_mem_cons.mpr ⟨?_, names.2⟩⟩
      · intro helper member
        exact (OpenBlock.mem_helpers_push.mp member).elim (sections.1 helper) (known helper)
      · rw [OpenBlock.push_kept, OpenBlock.push_name]
        exact names.1

private theorem Step.familiar
    {after : Builder} {token : Token} (step : Step table builder token after)
    (familiar : builder.Familiar table) :
    after.Familiar table := by
  obtain ⟨nodes, sections, names⟩ := familiar
  cases step with
  | pass => exact ⟨nodes, sections, names⟩
  | refuse faults => exact ⟨nodes, sections, names⟩
  | add node faults reads =>
      have reported : (builder.report token.span faults).Familiar table :=
        ⟨nodes, sections, names⟩
      apply reported.push
      rw [Node.helpers_of_leaf? reads]
      exact List.forall_mem_nil _
  | enter helper arguments =>
      refine ⟨nodes, List.forall_mem_cons.mpr ⟨?_, sections⟩,
        List.forall_mem_cons.mpr ⟨?_, names⟩⟩
      · simp [entry, OpenBlock.helpers, Node.helpers, Node.marksNodes]
      · intro kept
        rw [entry, Bool.and_eq_true] at kept
        exact kept.1
  | turn block outer _ blocks whole =>
      rw [blocks, List.forall_mem_cons] at sections names
      refine ⟨nodes, List.forall_mem_cons.mpr ⟨?_, sections.2⟩,
        List.forall_mem_cons.mpr ⟨names.1, names.2⟩⟩
      rw [OpenBlock.helpers_invert whole]
      exact sections.1
  | leave inner block outer _ _ blocks =>
      rw [blocks, List.forall_mem_append, List.forall_mem_cons] at sections names
      have closed : Familiar table { builder with
          blocks := outer
          diagnostics := builder.diagnostics ++ inner.map OpenBlock.unclosed } :=
        ⟨nodes, sections.2.2, names.2.2⟩
      by_cases kept : block.kept = true
      · rw [Builder.leave, if_pos kept]
        apply closed.push
        rw [OpenBlock.helpers_close]
        exact List.forall_mem_cons.mpr ⟨names.2.1 kept, sections.2.1⟩
      · rw [Builder.leave, if_neg kept]
        exact closed

end Builder

end Stencil
