import Stencil.Proofs.Builder.Run

/-!
How deep a builder lets blocks nest. An open block inside `n` others holds nodes that nest at
most `maxBlockDepth - (n + 1)` deep, and is kept only if there is room for it; so it still fits
where it is added when it closes.
-/

namespace Stencil

namespace OpenBlock

/-- Whether the sections of a block nest at most so deep. -/
def Fits (bound : Nat) (block : OpenBlock) : Prop :=
  Node.depthNodes block.body.toList ≤ bound ∧
    Node.depthInverse (block.inverse.map Array.toList) ≤ bound

theorem Fits.push
    {bound : Nat} {block : OpenBlock} {node : Node}
    (fits : block.Fits bound) (shallow : node.depth ≤ bound) :
    (block.push node).Fits bound := by
  obtain ⟨bodyFits, inverseFits⟩ := fits
  cases inverse : block.inverse with
  | none =>
      rw [OpenBlock.push_of_whole inverse]
      refine ⟨?_, inverseFits⟩
      simp only [Array.toList_push, Node.depthNodes_append, Node.depthNodes_singleton]
      exact Nat.max_le.mpr ⟨bodyFits, shallow⟩
  | some nodes =>
      rw [OpenBlock.push_of_divided inverse]
      refine ⟨bodyFits, ?_⟩
      rw [inverse] at inverseFits
      simp only [Option.map_some, Node.depthInverse, Array.toList_push, Node.depthNodes_append,
        Node.depthNodes_singleton] at inverseFits ⊢
      exact Nat.max_le.mpr ⟨inverseFits, shallow⟩

theorem Fits.invert
    {bound : Nat} {block : OpenBlock} (fits : block.Fits bound) (trim : Trim) :
    (block.invert trim).Fits bound :=
  ⟨fits.1, Nat.zero_le bound⟩

private theorem Fits.depth_close
    {bound : Nat} {block : OpenBlock} (fits : block.Fits bound) (trim : Trim) :
    (block.close trim).depth ≤ bound + 1 := by
  rw [OpenBlock.close, Node.depth]
  exact Nat.succ_le_succ (Nat.max_le.mpr fits)

end OpenBlock

namespace Builder

def FittingBlocks : List OpenBlock → Prop
  | [] => True
  | block :: outer =>
      block.Fits (maxBlockDepth - (outer.length + 1)) ∧
        (block.kept = true → outer.length < maxBlockDepth) ∧ FittingBlocks outer

/-- Whether a builder keeps to the deepest nesting. -/
structure Fitting (builder : Builder) : Prop where
  nodes : Node.depthNodes builder.nodes.toList ≤ maxBlockDepth
  blocks : FittingBlocks builder.blocks

private theorem FittingBlocks.of_append
    {inner outer : List OpenBlock} (fitting : FittingBlocks (inner ++ outer)) :
    FittingBlocks outer := by
  induction inner with
  | nil => exact fitting
  | cons block rest inductionHypothesis => exact inductionHypothesis fitting.2.2

theorem Fitting.push
    {builder : Builder} {node : Node} (fitting : builder.Fitting)
    (shallow : node.depth ≤ maxBlockDepth - builder.blocks.length) :
    (builder.push node).Fitting := by
  obtain ⟨nodesFit, blocksFit⟩ := fitting
  cases blocks : builder.blocks with
  | nil =>
      rw [blocks] at shallow
      rw [Builder.push_outside blocks]
      refine ⟨?_, by rw [blocks]; trivial⟩
      simp only [Array.toList_push, Node.depthNodes_append, Node.depthNodes_singleton]
      exact Nat.max_le.mpr ⟨nodesFit, shallow⟩
  | cons block outer =>
      rw [blocks] at blocksFit shallow
      rw [Builder.push_inside blocks]
      refine ⟨nodesFit, blocksFit.1.push shallow, ?_, blocksFit.2.2⟩
      rw [OpenBlock.push_kept]
      exact blocksFit.2.1

private theorem depth_of_leaf?
    {token : Token} {node : Node} (reads : token.leaf? = some node) :
    node.depth = 0 := by
  cases node with
  | block tags body inverse => exact absurd (Token.marks_of_leaf? reads) (by simp [Node.marks])
  | text => rfl
  | expression => rfl
  | comment => rfl
  | partialTag => rfl

private theorem Step.fitting
    {table : BlockTable} {builder after : Builder} {token : Token}
    (step : Step table builder token after) (fitting : builder.Fitting) :
    after.Fitting := by
  cases step with
  | pass _ => exact fitting
  | refuse faults => exact ⟨fitting.nodes, fitting.blocks⟩
  | add node faults reads =>
      have reported : (builder.report token.span faults).Fitting :=
        ⟨fitting.nodes, fitting.blocks⟩
      exact reported.push (by rw [depth_of_leaf? reads]; exact Nat.zero_le _)
  | enter helper arguments =>
      refine ⟨fitting.nodes, ⟨Nat.zero_le _, Nat.zero_le _⟩, ?_, fitting.blocks⟩
      intro kept
      simp only [entry, Bool.and_eq_true, decide_eq_true_eq] at kept
      exact kept.2
  | turn block outer _ blocks =>
      have blocksFit := fitting.blocks
      rw [blocks] at blocksFit
      exact ⟨fitting.nodes, blocksFit.1.invert token.trim, blocksFit.2⟩
  | leave inner block outer _ _ blocks =>
      have blocksFit := fitting.blocks
      rw [blocks] at blocksFit
      obtain ⟨blockFits, room, outerFit⟩ := blocksFit.of_append
      have closed :
          Fitting { builder with
            blocks := outer
            diagnostics := builder.diagnostics ++ inner.map OpenBlock.unclosed } :=
        ⟨fitting.nodes, outerFit⟩
      by_cases kept : block.kept = true
      · rw [Builder.leave, if_pos kept]
        have below := room kept
        have shallow := blockFits.depth_close token.trim
        refine closed.push (Nat.le_trans shallow ?_)
        show maxBlockDepth - (outer.length + 1) + 1 ≤ maxBlockDepth - outer.length
        omega
      · rw [Builder.leave, if_neg kept]
        exact closed

private theorem fitting_run (table : BlockTable) (tokens : List Token) :
    (run table tokens).Fitting := by
  induction tokens using List.reverseRecOn with
  | nil => exact ⟨Nat.zero_le _, trivial⟩
  | append_singleton tokens token inductionHypothesis =>
      rw [run_append_singleton]
      exact (step_spec table _ token).fitting inductionHypothesis

/-- No run builds a document that nests deeper than the bound. -/
theorem depth_run_le (table : BlockTable) (tokens : List Token) :
    (run table tokens).document.depth ≤ maxBlockDepth :=
  (fitting_run table tokens).nodes

end Builder

end Stencil
