import Stencil.Proofs.Builder.Run
import Stencil.Proofs.Document.Spans

/-!
A builder does not look at places, nor at what it has built outside all blocks. So it does the
same to tokens that have been moved, after other tokens that leave no block open.
-/

namespace Stencil

theorem Node.mapSpanNodes_eq_map (change : Span → Span) (nodes : List Node) :
    mapSpanNodes change nodes = nodes.map (mapSpan change) := by
  induction nodes with
  | nil => rfl
  | cons node rest inductionHypothesis =>
      rw [mapSpanNodes, inductionHypothesis, List.map_cons]

def Token.mapSpan (change : Span → Span) (token : Token) : Token :=
  { token with span := change token.span }

def Diagnostic.mapSpan (change : Span → Span) (diagnostic : Diagnostic) : Diagnostic :=
  { diagnostic with span := change diagnostic.span }

namespace OpenBlock

def mapSpan (change : Span → Span) (block : OpenBlock) : OpenBlock where
  kept := block.kept
  tags := { block.tags with span := change block.tags.span }
  body := block.body.map (Node.mapSpan change)
  inverse := block.inverse.map (Array.map (Node.mapSpan change))

private theorem mapSpan_push (change : Span → Span) (block : OpenBlock) (node : Node) :
    (block.push node).mapSpan change = (block.mapSpan change).push (node.mapSpan change) := by
  obtain ⟨kept, tags, body, inverse⟩ := block
  cases inverse with
  | none => simp [push, mapSpan]
  | some nodes => simp [push, mapSpan]

private theorem mapSpan_close (change : Span → Span) (block : OpenBlock) (trim : Trim) :
    (block.close trim).mapSpan change = (block.mapSpan change).close trim := by
  obtain ⟨kept, tags, body, inverse⟩ := block
  cases inverse with
  | none => simp [close, mapSpan, Node.mapSpan, Node.mapSpanInverse, Node.mapSpanNodes_eq_map]
  | some nodes =>
      simp [close, mapSpan, Node.mapSpan, Node.mapSpanInverse, Node.mapSpanNodes_eq_map]

end OpenBlock

namespace Builder

/-- A builder with all its places changed, after another one without open blocks. -/
def after (earlier : Builder) (change : Span → Span) (builder : Builder) : Builder where
  nodes := earlier.nodes ++ builder.nodes.map (Node.mapSpan change)
  blocks := builder.blocks.map (OpenBlock.mapSpan change)
  diagnostics := earlier.diagnostics ++ builder.diagnostics.map (Diagnostic.mapSpan change)

variable (earlier : Builder) (change : Span → Span)

private theorem after_empty (closed : earlier.blocks = []) :
    earlier.after change empty = earlier := by
  obtain ⟨nodes, blocks, diagnostics⟩ := earlier
  obtain rfl : blocks = [] := closed
  simp [after, empty]

private theorem after_push (builder : Builder) (node : Node) :
    earlier.after change (builder.push node) =
      (earlier.after change builder).push (node.mapSpan change) := by
  obtain ⟨nodes, blocks, diagnostics⟩ := builder
  cases blocks with
  | nil => simp [after, push]
  | cons block outer => simp [after, push, OpenBlock.mapSpan_push]

private theorem map_appendList (diagnostics : Array Diagnostic) (more : List Diagnostic) :
    earlier.diagnostics ++ (diagnostics ++ more).map (Diagnostic.mapSpan change) =
      (earlier.diagnostics ++ diagnostics.map (Diagnostic.mapSpan change)) ++
        more.map (Diagnostic.mapSpan change) := by
  apply Array.ext'
  simp only [Array.toList_append, Array.toList_map, Array.toList_appendList, List.map_append,
    List.append_assoc]

private theorem after_report (builder : Builder) (token : Token) (faults : List Fault) :
    earlier.after change (builder.report token.span faults) =
      (earlier.after change builder).report (token.mapSpan change).span faults := by
  simp only [after, report, map_appendList, List.map_map]
  rfl

private theorem after_expression (builder : Builder) (token : Token) (escaped : Bool) :
    earlier.after change (builder.expression token escaped) =
      (earlier.after change builder).expression (token.mapSpan change) escaped := by
  have words : (token.mapSpan change).words = token.words := rfl
  unfold expression
  rw [words]
  split
  · exact after_report earlier change builder token _
  · split
    · exact after_push earlier change builder _
    · exact after_report earlier change builder token _
  · exact after_report earlier change builder token _

private theorem after_openBlock (table : BlockTable) (builder : Builder) (token : Token) :
    earlier.after change (openBlock table builder token) =
      openBlock table (earlier.after change builder) (token.mapSpan change) := by
  have same : (token.mapSpan change).words = token.words := rfl
  cases words : token.words with
  | nil =>
      rw [openBlock, openBlock, same, words]
      exact after_report earlier change builder token _
  | cons helper arguments =>
      rw [openBlock_eq_enter words, openBlock_eq_enter (same.trans words)]
      have depth : (earlier.after change builder).blocks.length = builder.blocks.length :=
        List.length_map _
      have reported := after_report earlier change builder token
        (entryFaults table builder.blocks.length token helper arguments)
      have faults : entryFaults table builder.blocks.length (token.mapSpan change) helper
          arguments = entryFaults table builder.blocks.length token helper arguments := rfl
      simp only [enter, depth, faults, ← reported]
      simp [after, entry, OpenBlock.mapSpan, Token.mapSpan]

private theorem after_invert (builder : Builder) (token : Token) :
    earlier.after change (builder.invert token) =
      (earlier.after change builder).invert (token.mapSpan change) := by
  have lexeme : (token.mapSpan change).lexeme = token.lexeme := rfl
  unfold invert
  rw [lexeme]
  split
  · cases blocks : builder.blocks with
    | nil =>
        have none : (earlier.after change builder).blocks = [] := by simp [after, blocks]
        rw [none]
        exact after_report earlier change builder token _
    | cons block outer =>
        have some : (earlier.after change builder).blocks =
            block.mapSpan change :: outer.map (OpenBlock.mapSpan change) := by
          simp [after, blocks]
        rw [some]
        cases inverse : block.inverse with
        | none =>
            simp [OpenBlock.mapSpan, inverse, after, OpenBlock.invert, Token.mapSpan]
        | some nodes =>
            simp only [OpenBlock.mapSpan, inverse, Option.map_some, Option.isSome_some, if_true]
            exact after_report earlier change builder token _
  · exact after_report earlier change builder token _

private theorem after_closeBlock (builder : Builder) (token : Token) :
    earlier.after change (builder.closeBlock token) =
      (earlier.after change builder).closeBlock (token.mapSpan change) := by
  have lexeme : (token.mapSpan change).lexeme = token.lexeme := rfl
  have blocks : (earlier.after change builder).blocks =
      builder.blocks.map (OpenBlock.mapSpan change) := rfl
  have names : (fun block : OpenBlock => block.name != token.lexeme) ∘ OpenBlock.mapSpan change =
      fun block => block.name != token.lexeme := rfl
  unfold closeBlock
  rw [lexeme, blocks, List.dropWhile_map, List.takeWhile_map, names]
  split
  · exact after_report earlier change builder token _
  · cases dropped : builder.blocks.dropWhile fun block => block.name != token.lexeme with
    | nil =>
        cases builder.blocks with
        | nil => exact after_report earlier change builder token _
        | cons block outer => exact after_report earlier change builder token _
    | cons block outer =>
        have unclosed (inner : List OpenBlock) :
            (inner.map OpenBlock.unclosed).map (Diagnostic.mapSpan change) =
              (inner.map (OpenBlock.mapSpan change)).map OpenBlock.unclosed := by
          rw [List.map_map, List.map_map]
          rfl
        simp only [List.map_cons]
        by_cases kept : block.kept = true
        · have keptToo : (block.mapSpan change).kept = true := kept
          rw [if_pos kept, if_pos keptToo, after_push, OpenBlock.mapSpan_close]
          simp only [after, map_appendList, unclosed]
          rfl
        · have neither : ¬ (block.mapSpan change).kept = true := kept
          rw [if_neg kept, if_neg neither]
          simp only [after, map_appendList, unclosed]

private theorem after_callPartial (builder : Builder) (token : Token) :
    earlier.after change (builder.callPartial token) =
      (earlier.after change builder).callPartial (token.mapSpan change) := by
  have words : (token.mapSpan change).words = token.words := rfl
  have lexeme (most : Nat) (arguments : List String) :
      surplus (token.mapSpan change) most arguments = surplus token most arguments := rfl
  unfold callPartial
  rw [words]
  split
  · exact after_report earlier change builder token _
  · rename_i name arguments _
    simp only [lexeme, ← after_report]
    cases arguments with
    | nil => exact after_push earlier change _ _
    | cons argument rest =>
        simp only
        cases readPath argument with
        | ok path => exact after_push earlier change _ _
        | error fault => rfl

private theorem after_step (table : BlockTable) (builder : Builder) (token : Token) :
    earlier.after change (step table builder token) =
      step table (earlier.after change builder) (token.mapSpan change) := by
  have kind : (token.mapSpan change).kind = token.kind := rfl
  unfold step
  rw [kind]
  split
  · exact after_push earlier change builder _
  · exact after_push earlier change builder _
  · exact after_expression earlier change builder token _
  · exact after_expression earlier change builder token _
  · exact after_openBlock earlier change table builder token
  · exact after_invert earlier change builder token
  · exact after_closeBlock earlier change builder token
  · exact after_callPartial earlier change builder token
  · rfl
  · rfl
  · rfl

private theorem after_foldl_step (table : BlockTable) (builder : Builder) (tokens : List Token) :
    earlier.after change (tokens.foldl (step table) builder) =
      (tokens.map (Token.mapSpan change)).foldl (step table) (earlier.after change builder) := by
  induction tokens generalizing builder with
  | nil => rfl
  | cons token rest inductionHypothesis =>
      rw [List.foldl_cons, inductionHypothesis, after_step, List.map_cons, List.foldl_cons]

/-- Tokens after others that leave no block open are built apart. -/
theorem run_append_of_closed
    (table : BlockTable) {tokens : List Token} (closed : (run table tokens).blocks = [])
    (change : Span → Span) (more : List Token) :
    run table (tokens ++ more.map (Token.mapSpan change)) =
      (run table tokens).after change (run table more) := by
  have whole := after_foldl_step (run table tokens) change table empty more
  rw [after_empty _ _ closed] at whole
  rw [run_append]
  exact whole.symm

end Builder

end Stencil
