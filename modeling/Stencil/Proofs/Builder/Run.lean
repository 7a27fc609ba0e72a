import Mathlib.Data.List.Induction
import Stencil.Proofs.Builder.Step

/-!
Runs of a builder: diagnostics are only ever added, and an unmarked end leaves the builder as it
is. What holds of all that a run passes through is shown token by token.
-/

namespace Stencil

namespace OpenBlock

theorem push_of_whole
    {block : OpenBlock} (whole : block.inverse = none) (node : Node) :
    block.push node = { block with body := block.body.push node } := by
  simp only [push, whole]

theorem push_of_divided
    {block : OpenBlock} {inverse : Array Node} (divided : block.inverse = some inverse)
    (node : Node) :
    block.push node = { block with inverse := some (inverse.push node) } := by
  simp only [push, divided]

@[simp] theorem push_kept (block : OpenBlock) (node : Node) :
    (block.push node).kept = block.kept := by
  cases inverse : block.inverse with
  | none => rw [push_of_whole inverse]
  | some nodes => rw [push_of_divided inverse]

@[simp] theorem push_tags (block : OpenBlock) (node : Node) :
    (block.push node).tags = block.tags := by
  cases inverse : block.inverse with
  | none => rw [push_of_whole inverse]
  | some nodes => rw [push_of_divided inverse]

@[simp] theorem push_name (block : OpenBlock) (node : Node) :
    (block.push node).name = block.name :=
  congrArg BlockTags.helper (block.push_tags node)

end OpenBlock

namespace Builder

theorem push_outside
    {builder : Builder} (outside : builder.blocks = []) (node : Node) :
    builder.push node = { builder with nodes := builder.nodes.push node } := by
  simp only [push, outside]

theorem push_inside
    {builder : Builder} {block : OpenBlock} {outer : List OpenBlock}
    (inside : builder.blocks = block :: outer) (node : Node) :
    builder.push node = { builder with blocks := block.push node :: outer } := by
  simp only [push, inside]

@[simp] theorem push_diagnostics (builder : Builder) (node : Node) :
    (builder.push node).diagnostics = builder.diagnostics := by
  cases blocks : builder.blocks with
  | nil => rw [push_outside blocks]
  | cons block outer => rw [push_inside blocks]

theorem length_blocks_push (builder : Builder) (node : Node) :
    (builder.push node).blocks.length = builder.blocks.length := by
  cases blocks : builder.blocks with
  | nil => rw [push_outside blocks, blocks]
  | cons block outer =>
      rw [push_inside blocks]
      rfl

theorem report_diagnostics (builder : Builder) (span : Span) (faults : List Fault) :
    (builder.report span faults).diagnostics.toList =
      builder.diagnostics.toList ++ faults.map fun fault => ⟨fault, span⟩ := by
  simp [report]

@[simp] theorem enter_nodes
    (table : BlockTable) (builder : Builder) (token : Token) (helper : String)
    (arguments : List String) :
    (enter table builder token helper arguments).nodes = builder.nodes := rfl

@[simp] theorem enter_blocks
    (table : BlockTable) (builder : Builder) (token : Token) (helper : String)
    (arguments : List String) :
    (enter table builder token helper arguments).blocks =
      entry table builder.blocks.length token helper arguments :: builder.blocks := rfl

theorem enter_diagnostics
    (table : BlockTable) (builder : Builder) (token : Token) (helper : String)
    (arguments : List String) :
    (enter table builder token helper arguments).diagnostics.toList =
      builder.diagnostics.toList ++
        (entryFaults table builder.blocks.length token helper arguments).map
          fun fault => ⟨fault, token.span⟩ :=
  report_diagnostics builder token.span _

theorem leave_diagnostics
    (builder : Builder) (inner : List OpenBlock) (block : OpenBlock)
    (outer : List OpenBlock) (trim : Trim) :
    (leave builder inner block outer trim).diagnostics.toList =
      builder.diagnostics.toList ++ inner.map OpenBlock.unclosed := by
  by_cases kept : block.kept = true
  · rw [leave, if_pos kept, push_diagnostics, Array.toList_appendList]
  · rw [leave, if_neg kept, Array.toList_appendList]

theorem Step.exists_diagnostics
    {table : BlockTable} {builder after : Builder} {token : Token}
    (step : Step table builder token after) :
    ∃ more, after.diagnostics.toList = builder.diagnostics.toList ++ more := by
  cases step with
  | pass _ => exact ⟨[], (List.append_nil _).symm⟩
  | refuse faults => exact ⟨_, report_diagnostics builder token.span faults⟩
  | add node faults =>
      rw [push_diagnostics]
      exact ⟨_, report_diagnostics builder token.span faults⟩
  | enter helper arguments => exact ⟨_, enter_diagnostics table builder token helper arguments⟩
  | turn block outer => exact ⟨[], (List.append_nil _).symm⟩
  | leave inner block outer => exact ⟨_, leave_diagnostics builder inner block outer token.trim⟩

theorem exists_diagnostics_foldl
    (table : BlockTable) (builder : Builder) (tokens : List Token) :
    ∃ more,
      (tokens.foldl (step table) builder).diagnostics.toList =
        builder.diagnostics.toList ++ more := by
  induction tokens generalizing builder with
  | nil => exact ⟨[], (List.append_nil _).symm⟩
  | cons token rest inductionHypothesis =>
      obtain ⟨first, firstEqual⟩ := (step_spec table builder token).exists_diagnostics
      obtain ⟨others, othersEqual⟩ := inductionHypothesis (step table builder token)
      refine ⟨first ++ others, ?_⟩
      rw [List.foldl_cons, othersEqual, firstEqual, List.append_assoc]

theorem run_append_singleton (table : BlockTable) (tokens : List Token) (token : Token) :
    run table (tokens ++ [token]) = step table (run table tokens) token := by
  rw [run, List.foldl_append]
  rfl

theorem run_append (table : BlockTable) (first second : List Token) :
    run table (first ++ second) = second.foldl (step table) (run table first) := by
  rw [run, List.foldl_append]
  rfl

private theorem run_scan (table : BlockTable) (source : String) :
    run table (Token.scan source) = run table (Token.content source) := by
  rw [Token.scan_eq_content, run_append_singleton]
  rfl

end Builder

namespace Token

private theorem diagnostic?_endAt (place : Position) : (endAt place).diagnostic? = none := rfl

private theorem filterMap_diagnostic?_scan (source : String) :
    (scan source).filterMap diagnostic? = (content source).filterMap diagnostic? := by
  rw [scan_eq_content, List.filterMap_append]
  simp [diagnostic?_endAt]

end Token

namespace Diagnostic

private theorem sortByPlace_eq_nil {diagnostics : List Diagnostic} :
    sortByPlace diagnostics = [] ↔ diagnostics = [] := by
  constructor
  · intro empty
    have perm := perm_sortByPlace diagnostics
    rw [empty] at perm
    exact perm.symm.eq_nil
  · intro empty
    rw [empty, sortByPlace, List.mergeSort_nil]

end Diagnostic

namespace Document

theorem readLenient_eq (table : BlockTable) (source : String) :
    readLenient table source =
      ((Builder.run table (Token.content source)).document,
        Diagnostic.sortByPlace ((Builder.run table (Token.content source)).finish ++
          (Token.content source).filterMap Token.diagnostic?)) := by
  rw [readLenient, Builder.run_scan, Token.filterMap_diagnostic?_scan]

/-- Reading succeeds when neither the builder nor the cutting of the source has anything to
report, and then gives what the builder has built. -/
theorem read_eq_ok_iff_faultless
    {table : BlockTable} {source : String} {document : Document} :
    read table source = .ok document ↔
      (Builder.run table (Token.content source)).finish = [] ∧
        (Token.content source).filterMap Token.diagnostic? = [] ∧
          (Builder.run table (Token.content source)).document = document := by
  have faultless :
      (readLenient table source).2 = [] ↔
        (Builder.run table (Token.content source)).finish = [] ∧
          (Token.content source).filterMap Token.diagnostic? = [] := by
    rw [readLenient_eq, Diagnostic.sortByPlace_eq_nil, List.append_eq_nil_iff]
  have built :
      (readLenient table source).1 =
        (Builder.run table (Token.content source)).document := by
    rw [readLenient_eq]
  rw [← and_assoc, ← faultless, ← built, read]
  split
  · rename_i document' result
    rw [result]
    simp
  · rename_i document' diagnostics notEmpty result
    rw [result]
    constructor
    · intro failed
      exact nomatch failed
    · rintro ⟨empty, _⟩
      exact absurd empty notEmpty

end Document

end Stencil
