import Stencil.Proofs.Builder.Run
import Stencil.Proofs.Nesting

/-!
The tokens that a document under construction shows. A trail stands beside a builder and keeps,
for the nodes outside all blocks and for each open block, the tokens that they were read from.
-/

namespace Stencil

open Nesting

namespace OpenBlock

def marks (block : OpenBlock) : List Mark :=
  .opening block.tags.helper block.tags.argument block.tags.opening block.tags.span ::
    (Node.marksNodes block.body.toList ++
      Node.marksInverse block.tags.middle (block.inverse.map Array.toList))

private theorem marks_push (block : OpenBlock) (node : Node) :
    (block.push node).marks = block.marks ++ node.marks := by
  cases inverse : block.inverse with
  | none =>
      simp only [push_of_whole inverse, marks, inverse, Option.map_none, Node.marksInverse,
        Array.toList_push, Node.marksNodes_append, Node.marksNodes_singleton, List.cons_append,
        List.append_nil]
  | some nodes =>
      simp only [push_of_divided inverse, marks, inverse, Option.map_some, Node.marksInverse,
        Array.toList_push, Node.marksNodes_append, Node.marksNodes_singleton, List.cons_append,
        List.append_assoc]

theorem marks_invert
    {block : OpenBlock} (whole : block.inverse = none) (trim : Trim) :
    (block.invert trim).marks = block.marks ++ [.middle trim] := by
  simp [marks, invert, whole, Node.marksInverse, Node.marksNodes]

theorem marks_close (block : OpenBlock) (trim : Trim) :
    (block.close trim).marks = block.marks ++ [.closing block.name trim] := by
  simp only [marks, close, Node.marks, List.cons_append, List.append_assoc]
  rfl

end OpenBlock

/-- An open block with its opening tag and the tokens that it shows. -/
structure Trace where
  block : OpenBlock
  opening : Token
  shown : List Token

/-- The tokens that a document under construction shows: those outside all blocks, and those of
the open blocks from the innermost outwards. -/
structure Trail where
  root : List Token
  traces : List Trace

namespace Trail

def push (trail : Trail) (node : Node) (tokens : List Token) : Trail :=
  match trail.traces with
  | trace :: outer =>
      { trail with
        traces := ⟨trace.block.push node, trace.opening, trace.shown ++ tokens⟩ :: outer }
  | [] => { trail with root := trail.root ++ tokens }

/-- All shown tokens in their order, with those of the innermost block last. -/
def shown (root : List Token) : List Trace → List Token
  | [] => root
  | trace :: outer => shown root outer ++ trace.shown

def all (trail : Trail) : List Token :=
  shown trail.root trail.traces

theorem mem_shown
    {root : List Token} {traces : List Trace} {token : Token} :
    token ∈ shown root traces ↔ token ∈ root ∨ ∃ trace ∈ traces, token ∈ trace.shown := by
  induction traces with
  | nil => simp [shown]
  | cons trace outer inductionHypothesis =>
      rw [shown, List.mem_append, inductionHypothesis]
      simp only [List.mem_cons, exists_eq_or_imp]
      exact or_assoc.trans (or_congr_right or_comm)

theorem shown_sublist_append (root : List Token) (inner outer : List Trace) :
    (shown root outer).Sublist (shown root (inner ++ outer)) := by
  induction inner with
  | nil => exact .refl _
  | cons trace inner inductionHypothesis =>
      exact inductionHypothesis.trans (List.sublist_append_left _ trace.shown)

theorem all_push (trail : Trail) (node : Node) (tokens : List Token) :
    (trail.push node tokens).all = trail.all ++ tokens := by
  obtain ⟨root, traces⟩ := trail
  cases traces with
  | nil => rfl
  | cons trace outer => exact (List.append_assoc _ _ _).symm

end Trail

/-- What a trace says of its block. -/
structure Trace.Sound (table : BlockTable) (tokens : List Token) (trace : Trace) : Prop where
  named : trace.opening.words.head? = some trace.block.name
  span : trace.block.tags.span = trace.opening.span
  marks : trace.block.marks.map some = trace.shown.map Token.mark?
  own : ∀ token ∈ trace.shown,
    token = trace.opening ∨ Belongs tokens token trace.opening
  misplaced : trace.block.kept = false → Misplaced table tokens trace.opening

theorem Trace.Sound.extend
    {table : BlockTable} {tokens : List Token} {trace : Trace}
    (sound : trace.Sound table tokens) {block : OpenBlock} {added : List Token}
    (name : block.name = trace.block.name) (span : block.tags.span = trace.block.tags.span)
    (kept : block.kept = trace.block.kept)
    (marks : block.marks.map some = trace.block.marks.map some ++ added.map Token.mark?)
    (inside : ∀ token ∈ added, Belongs tokens token trace.opening) :
    Trace.Sound table tokens ⟨block, trace.opening, trace.shown ++ added⟩ := by
  refine ⟨?_, ?_, ?_, ?_, ?_⟩
  · rw [name]
    exact sound.named
  · rw [span]
    exact sound.span
  · rw [marks, List.map_append, sound.marks]
  · intro token shown
    rcases List.mem_append.mp shown with earlier | now
    · exact sound.own token earlier
    · exact .inr (inside token now)
  · rw [kept]
    exact sound.misplaced

structure Trail.Sound (table : BlockTable) (tokens : List Token) (builder : Builder)
    (trail : Trail) : Prop where
  nodes : (Node.marksNodes builder.nodes.toList).map some = trail.root.map Token.mark?
  blocks : builder.blocks = trail.traces.map Trace.block
  traces : ∀ trace ∈ trail.traces, trace.Sound table tokens
  enclosed : trail.traces.Pairwise fun inner outer =>
    ∀ token ∈ inner.shown, Belongs tokens token outer.opening

namespace Trail

variable {table : BlockTable} {tokens : List Token} {builder : Builder} {trail : Trail}

theorem Sound.append (sound : Sound table tokens builder trail) (more : List Token) :
    Sound table (tokens ++ more) builder trail := by
  refine ⟨sound.nodes, sound.blocks, fun trace member => ?_, ?_⟩
  · obtain ⟨named, span, marks, own, misplaced⟩ := sound.traces trace member
    refine ⟨named, span, marks, fun token inside => ?_, fun kept => ?_⟩
    · exact (own token inside).imp_right fun belongs => belongs.append more
    · exact (misplaced kept).append more
  · refine sound.enclosed.imp ?_
    intro inner outer belongs token member
    exact (belongs token member).append more

theorem pairwise_extend
    {trace : Trace} {outer : List Trace}
    (enclosed : (trace :: outer).Pairwise fun inner outer =>
      ∀ token ∈ inner.shown, Belongs tokens token outer.opening)
    {block : OpenBlock} {added : List Token}
    (inside : ∀ token ∈ added, ∀ other ∈ outer, Belongs tokens token other.opening) :
    (⟨block, trace.opening, trace.shown ++ added⟩ :: outer : List Trace).Pairwise
      fun inner outer => ∀ token ∈ inner.shown, Belongs tokens token outer.opening := by
  obtain ⟨first, others⟩ := List.pairwise_cons.mp enclosed
  refine List.pairwise_cons.mpr ⟨?_, others⟩
  intro other member token shown
  rcases List.mem_append.mp shown with earlier | now
  · exact first other member token earlier
  · exact inside token now other member

theorem Sound.push
    (sound : Sound table tokens builder trail) {node : Node} {added : List Token}
    (marks : node.marks.map some = added.map Token.mark?)
    (inside : ∀ token ∈ added, ∀ trace ∈ trail.traces, Belongs tokens token trace.opening) :
    Sound table tokens (builder.push node) (trail.push node added) := by
  obtain ⟨root, traces⟩ := trail
  obtain ⟨nodes, blocks, sounds, enclosed⟩ := sound
  cases traces with
  | nil =>
      have outside : builder.blocks = [] := blocks
      rw [Builder.push_outside outside, Trail.push]
      refine ⟨?_, outside, sounds, enclosed⟩
      simp only [Array.toList_push, Node.marksNodes_append, Node.marksNodes_singleton,
        List.map_append, nodes, marks]
  | cons trace outer =>
      have within : builder.blocks = trace.block :: outer.map Trace.block := blocks
      rw [Builder.push_inside within, Trail.push]
      refine ⟨nodes, rfl, ?_, pairwise_extend enclosed fun token member other later =>
        inside token member other (List.mem_cons_of_mem trace later)⟩
      intro other member
      rcases List.mem_cons.mp member with rfl | later
      · refine (sounds trace List.mem_cons_self).extend ?_ ?_ ?_ ?_ ?_
        · exact trace.block.push_name node
        · rw [OpenBlock.push_tags]
        · exact trace.block.push_kept node
        · rw [OpenBlock.marks_push, List.map_append, marks]
        · exact fun token now => inside token now trace List.mem_cons_self
      · exact sounds other (List.mem_cons_of_mem trace later)

theorem Sound.congr
    (sound : Sound table tokens builder trail) {after : Builder}
    (nodes : after.nodes = builder.nodes) (blocks : after.blocks = builder.blocks) :
    Sound table tokens after trail :=
  ⟨by rw [nodes]; exact sound.nodes, blocks.trans sound.blocks, sound.traces, sound.enclosed⟩

end Trail

end Stencil
