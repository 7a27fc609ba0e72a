import Mathlib
import Stencil.Proofs.Builder.Run
import Stencil.Proofs.Diagnostic.Wording
import Stencil.TemplateError

/-!
The report of a source that cannot be read. All that its lines hold of the source comes from the
tags at fault, so it has one line per diagnostic unless a tag is cited as a whole that spans
several lines.
-/

namespace Stencil

namespace Builder

/-- Whether the open blocks of a builder are named in their opening tags, and its diagnostics
cite the tags at their places. -/
structure Cites (tokens : List Token) (builder : Builder) : Prop where
  blocks : ∀ block ∈ builder.blocks,
    ∃ opening ∈ tokens, block.tags.span = opening.span ∧ block.name ∈ opening.words
  diagnostics : ∀ diagnostic ∈ builder.diagnostics.toList, diagnostic.Cites tokens

section Faults

variable {tokens : List Token} {token : Token}

private theorem cites_of_mem_surplus
    (most : Nat) {arguments : List String} (words : arguments ⊆ token.words) :
    ∀ fault ∈ surplus token most arguments, fault.Cites tokens token := by
  intro fault member
  unfold surplus at member
  split at member
  · rename_i argument found
    rw [List.mem_singleton.mp member]
    exact ⟨words (List.mem_of_getElem? found), rfl⟩
  · exact absurd member List.not_mem_nil

private theorem cites_of_readPath
    {word : String} (cited : word ∈ token.words) {fault : Fault}
    (read : readPath word = .error fault) : fault.Cites tokens token := by
  rw [readPath_eq] at read
  split at read
  · exact nomatch read
  · rw [← Except.error.inj read]
    exact cited

private theorem cites_of_mem_blockArgument
    {rule : Option ArgumentRule} {name : String} {arguments : List String}
    (words : name :: arguments ⊆ token.words) :
    ∀ fault ∈ (blockArgument rule name arguments).2, fault.Cites tokens token := by
  intro fault member
  cases arguments with
  | nil =>
      rw [blockArgument] at member
      split at member
      · rw [List.mem_singleton.mp member]
        exact words List.mem_cons_self
      · exact absurd member List.not_mem_nil
  | cons argument others =>
      rw [blockArgument] at member
      cases read : readPath argument with
      | ok path =>
          rw [read] at member
          exact absurd member List.not_mem_nil
      | error flawed =>
          rw [read] at member
          rw [List.mem_singleton.mp member]
          exact cites_of_readPath (words (by simp)) read

private theorem cites_of_mem_entryFaults
    (table : BlockTable) (depth : Nat) {name : String} {arguments : List String}
    (words : token.words = name :: arguments) :
    ∀ fault ∈ entryFaults table depth token name arguments, fault.Cites tokens token := by
  have inside : name :: arguments ⊆ token.words := by
    rw [words]
    exact List.Subset.refl _
  intro fault member
  simp only [entryFaults, List.mem_append] at member
  rcases member with ((surplus | unknown) | deep) | argument
  · exact cites_of_mem_surplus 1 (List.cons_subset.mp inside).2 fault surplus
  · split at unknown
    · rw [List.mem_singleton.mp unknown]
      exact inside List.mem_cons_self
    · exact absurd unknown List.not_mem_nil
  · split at deep
    · rw [List.mem_singleton.mp deep]
      trivial
    · exact absurd deep List.not_mem_nil
  · exact cites_of_mem_blockArgument inside fault argument

end Faults

section Steps

variable {tokens : List Token} {builder : Builder} {token : Token}

theorem Cites.push (cites : builder.Cites tokens) (node : Node) :
    (builder.push node).Cites tokens := by
  obtain ⟨blocks, diagnostics⟩ := cites
  constructor
  · cases opened : builder.blocks with
    | nil =>
        rw [push_outside opened]
        exact blocks
    | cons block outer =>
        rw [opened, List.forall_mem_cons] at blocks
        rw [push_inside opened, List.forall_mem_cons, OpenBlock.push_tags, OpenBlock.push_name]
        exact blocks
  · rw [push_diagnostics]
    exact diagnostics

theorem Cites.report
    (cites : builder.Cites tokens) (member : token ∈ tokens) {faults : List Fault}
    (own : ∀ fault ∈ faults, fault.Cites tokens token) :
    (builder.report token.span faults).Cites tokens := by
  refine ⟨cites.blocks, ?_⟩
  rw [report_diagnostics, List.forall_mem_append, List.forall_mem_map]
  exact ⟨cites.diagnostics, fun fault listed => ⟨token, member, rfl, own fault listed⟩⟩

private theorem Cites.report_singleton
    (cites : builder.Cites tokens) (member : token ∈ tokens) {fault : Fault}
    (own : fault.Cites tokens token) : (builder.report token.span [fault]).Cites tokens :=
  cites.report member (List.forall_mem_singleton.mpr own)

theorem Cites.expression
    (cites : builder.Cites tokens) (member : token ∈ tokens) (escaped : Bool) :
    (builder.expression token escaped).Cites tokens := by
  unfold Builder.expression
  split
  · exact cites.report_singleton member trivial
  · rename_i word words
    split
    · exact cites.push _
    · rename_i fault read
      apply cites.report_singleton member
      exact cites_of_readPath (words ▸ List.mem_cons_self) read
  · rename_i first arguments _ words
    apply cites.report member
    apply cites_of_mem_surplus
    rw [words]
    exact List.subset_cons_self first arguments

theorem Cites.callPartial
    (cites : builder.Cites tokens) (member : token ∈ tokens) :
    (builder.callPartial token).Cites tokens := by
  unfold Builder.callPartial
  split
  · exact cites.report_singleton member trivial
  · rename_i name arguments words
    have inside : arguments ⊆ token.words := by
      rw [words]
      exact List.subset_cons_self name arguments
    have noted := cites.report member (cites_of_mem_surplus 1 inside)
    dsimp only
    split
    · exact noted.push _
    · split
      · exact noted.push _
      · rename_i fault read
        exact noted.report_singleton member (cites_of_readPath (inside List.mem_cons_self) read)

theorem Cites.openBlock
    (table : BlockTable) (cites : builder.Cites tokens) (member : token ∈ tokens) :
    (openBlock table builder token).Cites tokens := by
  cases words : token.words with
  | nil =>
      rw [Builder.openBlock, words]
      exact cites.report_singleton member trivial
  | cons name arguments =>
      rw [openBlock_eq_enter words]
      have noted := cites.report member (cites_of_mem_entryFaults table builder.blocks.length words)
      refine ⟨?_, noted.diagnostics⟩
      rw [enter_blocks, List.forall_mem_cons]
      exact ⟨⟨token, member, rfl, words ▸ List.mem_cons_self⟩, cites.blocks⟩

theorem Cites.invert
    (cites : builder.Cites tokens) (member : token ∈ tokens) :
    (builder.invert token).Cites tokens := by
  unfold Builder.invert
  split
  · split
    · exact cites.report_singleton member trivial
    · rename_i block outer blocks
      have opened := cites.blocks
      rw [blocks, List.forall_mem_cons] at opened
      split
      · apply cites.report_singleton member
        obtain ⟨opening, listed, _, named⟩ := opened.1
        exact ⟨opening, listed, named⟩
      · refine ⟨?_, cites.diagnostics⟩
        rw [List.forall_mem_cons]
        exact opened
  · exact cites.report_singleton member rfl

theorem Cites.unclosed
    (cites : builder.Cites tokens) {block : OpenBlock} (member : block ∈ builder.blocks) :
    block.unclosed.Cites tokens := by
  obtain ⟨opening, listed, span, named⟩ := cites.blocks block member
  exact ⟨opening, listed, span, named⟩

theorem Cites.leave
    (cites : builder.Cites tokens) {inner : List OpenBlock} {block : OpenBlock}
    {outer : List OpenBlock} (blocks : builder.blocks = inner ++ block :: outer) (trim : Trim) :
    (leave builder inner block outer trim).Cites tokens := by
  have closed : Cites tokens
      { builder with
        blocks := outer
        diagnostics := builder.diagnostics ++ inner.map OpenBlock.unclosed } := by
    constructor
    · intro other member
      apply cites.blocks
      rw [blocks]
      exact List.mem_append_right _ (List.mem_cons_of_mem _ member)
    · rw [Array.toList_appendList, List.forall_mem_append, List.forall_mem_map]
      refine ⟨cites.diagnostics, fun dropped member => cites.unclosed ?_⟩
      rw [blocks]
      exact List.mem_append_left _ member
  unfold Builder.leave
  dsimp only
  split
  · exact closed.push _
  · exact closed

theorem Cites.closeBlock
    (cites : builder.Cites tokens) (member : token ∈ tokens) :
    (builder.closeBlock token).Cites tokens := by
  unfold Builder.closeBlock
  split
  · exact cites.report_singleton member trivial
  · split
    · split
      · exact cites.report_singleton member rfl
      · rename_i block outer blocks
        obtain ⟨opening, listed, _, named⟩ := cites.blocks block (blocks ▸ List.mem_cons_self)
        exact cites.report_singleton member ⟨⟨opening, listed, named⟩, rfl⟩
    · rename_i block outer found
      apply cites.leave
      rw [← found, List.takeWhile_append_dropWhile]

theorem Cites.step
    (table : BlockTable) (cites : builder.Cites tokens) (member : token ∈ tokens) :
    (step table builder token).Cites tokens := by
  unfold Builder.step
  split
  · exact cites.push _
  · exact cites.push _
  · exact cites.expression member true
  · exact cites.expression member false
  · exact cites.openBlock table member
  · exact cites.invert member
  · exact cites.closeBlock member
  · exact cites.callPartial member
  all_goals exact cites

end Steps

/-! ## Runs -/

private theorem cites_foldl
    (table : BlockTable) {tokens : List Token} {builder : Builder} (cites : builder.Cites tokens)
    {some : List Token} (inside : some ⊆ tokens) :
    (some.foldl (step table) builder).Cites tokens := by
  induction some generalizing builder with
  | nil => exact cites
  | cons token rest inductionHypothesis =>
      rw [List.cons_subset] at inside
      exact inductionHypothesis (cites.step table inside.1) inside.2

private theorem cites_of_mem_finish
    (table : BlockTable) (tokens : List Token) :
    ∀ diagnostic ∈ (run table tokens).finish, diagnostic.Cites tokens := by
  have cites : (run table tokens).Cites tokens := by
    apply cites_foldl table _ (List.Subset.refl tokens)
    exact ⟨fun _ => nofun, fun _ => nofun⟩
  rw [finish, List.forall_mem_append, List.forall_mem_map]
  exact ⟨cites.diagnostics, fun block => cites.unclosed⟩

end Builder

private theorem Token.cites_of_diagnostic?
    {tokens : List Token} {token : Token} (member : token ∈ tokens) {diagnostic : Diagnostic}
    (reads : token.diagnostic? = some diagnostic) : diagnostic.Cites tokens := by
  obtain ⟨fault, found, rfl⟩ := Option.map_eq_some_iff.mp reads
  refine ⟨token, member, rfl, ?_⟩
  unfold Kind.fault? at found
  split at found
  · rw [← Option.some.inj found]
    trivial
  · rw [← Option.some.inj found]
    trivial
  · exact nomatch found

namespace Document

/-- Every diagnostic of a source cites the tag at its place. -/
theorem cites_of_mem_readLenient
    (table : BlockTable) (source : String) :
    ∀ diagnostic ∈ (readLenient table source).2, diagnostic.Cites (Token.content source) := by
  intro diagnostic member
  rw [readLenient_eq] at member
  have listed := (Diagnostic.perm_sortByPlace _).mem_iff.mp member
  rcases List.mem_append.mp listed with built | lexical
  · exact Builder.cites_of_mem_finish table _ diagnostic built
  · obtain ⟨token, inside, reads⟩ := List.mem_filterMap.mp lexical
    exact Token.cites_of_diagnostic? inside reads

private theorem readLenient_of_read_eq_error
    {table : BlockTable} {source : String} {diagnostics : List Diagnostic}
    (failed : read table source = .error diagnostics) :
    (readLenient table source).2 = diagnostics := by
  unfold read at failed
  split at failed
  · exact nomatch failed
  · rename_i result
    rw [result]
    exact Except.error.inj failed

/-- The report of a source that cannot be read, line by line: one line per diagnostic, and one
more for each line feed in a tag that a diagnostic cites as a whole. So the lines are the
diagnostics exactly when no such tag spans several lines. -/
theorem lines_of_read_error
    {table : BlockTable} {source : String} {diagnostics : List Diagnostic}
    (failed : read table source = .error diagnostics) :
    let report := (TemplateError.invalidSource diagnostics).message
    report = Diagnostic.report diagnostics ∧
      (Text.lines report.toList).length =
        diagnostics.length + (diagnostics.map Diagnostic.feeds).sum ∧
      (Text.lines report.toList = diagnostics.map (fun diagnostic => diagnostic.display.toList) ↔
        ∀ diagnostic ∈ diagnostics, diagnostic.feeds = 0) ∧
      ∀ diagnostic ∈ diagnostics, ∀ tag, diagnostic.fault.tag? = some tag →
        ∃ token ∈ Token.content source, diagnostic.span = token.span ∧ tag = token.lexeme := by
  have cites := cites_of_mem_readLenient table source
  rw [readLenient_of_read_eq_error failed] at cites
  refine ⟨rfl, Diagnostic.length_lines_report cites, Diagnostic.lines_report_eq_map cites, ?_⟩
  intro diagnostic member tag cited
  obtain ⟨token, inside, span, own⟩ := cites diagnostic member
  exact ⟨token, inside, span, own.lexeme_of_tag? cited⟩

/-- Two faults on one line of a source are two lines of the report. -/
theorem lines_of_read_error_two :
    let source := Fault.tagText "" ++ " fine " ++ Fault.tagText "a b"
    let diagnostics : List Diagnostic :=
      [⟨.emptyExpression, ⟨⟨1, 1⟩, 4⟩⟩, ⟨.unexpectedArgument "b" "a b", ⟨⟨1, 11⟩, 7⟩⟩]
    read .builtin source = .error diagnostics ∧
      Text.lines (TemplateError.invalidSource diagnostics).message.toList =
        ["1:1: tag has no expression".toList,
          "1:11: unexpected argument 'b' in 'a b'".toList] := by
  intro source diagnostics
  have failed : read .builtin source = .error diagnostics := by cbv
  obtain ⟨_, _, lines, _⟩ := lines_of_read_error failed
  refine ⟨failed, (lines.mpr ?_).trans ?_⟩
  · decide
  · decide +kernel

/-- A tag over two lines makes two lines of a single diagnostic. -/
theorem length_lines_of_divided_tag :
    let source := Fault.tagText "a\nb"
    let diagnostics : List Diagnostic := [⟨.unexpectedArgument "b" "a\nb", ⟨⟨1, 1⟩, 7⟩⟩]
    read .builtin source = .error diagnostics ∧
      Text.lines (TemplateError.invalidSource diagnostics).message.toList =
        ["1:1: unexpected argument 'b' in 'a".toList, "b'".toList] ∧
      (Text.lines (TemplateError.invalidSource diagnostics).message.toList).length ≠
        diagnostics.length := by
  intro source diagnostics
  have failed : read .builtin source = .error diagnostics := by cbv
  have lines : Text.lines (TemplateError.invalidSource diagnostics).message.toList =
      ["1:1: unexpected argument 'b' in 'a".toList, "b'".toList] := by
    decide +kernel
  refine ⟨failed, lines, ?_⟩
  rw [lines]
  decide

end Document

end Stencil
