import Stencil.Proofs.Builder.Account
import Stencil.Proofs.Diagnostic.Sort

/-!
What a run reports about the nesting of blocks. Which blocks are open at a tag is told by the
tags before it alone, so the reports of a step are told by them too.
-/

namespace Stencil

open Nesting

def Fault.ofNesting (fault : Fault) : Bool :=
  fault.kind = .nestingTooDeep ∨ fault.kind = .unclosedBlock

def Token.unclosed (token : Token) : Diagnostic :=
  ⟨.unclosedBlock (token.words.headD ""), token.span⟩

namespace Builder

/-- Whether a builder gets no other diagnostics than those of faults at a place that are not of
how blocks nest. -/
def Aside (span : Span) (builder after : Builder) : Prop :=
  ∃ faults : List Fault,
    (∀ fault ∈ faults, fault.ofNesting = false) ∧
      after.diagnostics.toList =
        builder.diagnostics.toList ++ faults.map fun fault => ⟨fault, span⟩

private theorem surplus_ofNesting
    {token : Token} {most : Nat} {arguments : List String} {fault : Fault}
    (member : fault ∈ surplus token most arguments) :
    fault.ofNesting = false := by
  unfold surplus at member
  split at member
  · rw [List.mem_singleton.mp member]
    simp [Fault.ofNesting, Fault.kind]
  · exact absurd member List.not_mem_nil

private theorem readPath_ofNesting
    {text : String} {fault : Fault} (failed : readPath text = .error fault) :
    fault.ofNesting = false := by
  rw [readPath_eq] at failed
  cases read : Path.read text with
  | ok path =>
      rw [read] at failed
      exact nomatch failed
  | error flaw =>
      rw [read] at failed
      rw [← Except.error.inj failed]
      simp [Fault.ofNesting, Fault.kind]

private theorem blockArgument_ofNesting
    {rule : Option ArgumentRule} {helper : String} {arguments : List String} {fault : Fault}
    (member : fault ∈ (blockArgument rule helper arguments).2) :
    fault.ofNesting = false := by
  cases arguments with
  | nil =>
      rw [blockArgument] at member
      by_cases required : rule = some .required
      · rw [if_pos required, List.mem_singleton] at member
        simp [member, Fault.ofNesting, Fault.kind]
      · rw [if_neg required] at member
        exact absurd member List.not_mem_nil
  | cons word rest =>
      rw [blockArgument] at member
      cases read : readPath word with
      | ok path =>
          rw [read] at member
          exact absurd member List.not_mem_nil
      | error failed =>
          rw [read, List.mem_singleton] at member
          rw [member]
          exact readPath_ofNesting read

private theorem unknownBlock_ofNesting
    {unknown : Bool} {helper : String} {fault : Fault}
    (member : fault ∈ if unknown then [Fault.unknownBlock helper] else []) :
    fault.ofNesting = false := by
  cases unknown with
  | true =>
      rw [if_pos rfl, List.mem_singleton] at member
      simp [member, Fault.ofNesting, Fault.kind]
  | false => exact absurd member List.not_mem_nil

private theorem ofNesting_of_ofClosing
    {fault : Fault} (closing : fault.ofClosing = true) : fault.ofNesting = false := by
  have kinds := of_decide_eq_true closing
  rcases kinds with kind | kind | kind <;> simp [Fault.ofNesting, kind]

section Filters

variable {keep : Diagnostic → Bool}

theorem filter_of_ofNesting
    (ofNesting : ∀ diagnostic, keep diagnostic = true → diagnostic.fault.ofNesting = true)
    {faults : List Fault} (aside : ∀ fault ∈ faults, fault.ofNesting = false) (span : Span) :
    (faults.map fun fault => Diagnostic.mk fault span).filter keep = [] := by
  rw [List.filter_eq_nil_iff]
  intro diagnostic member kept
  obtain ⟨fault, listed, rfl⟩ := List.mem_map.mp member
  have nesting := ofNesting _ kept
  rw [aside fault listed] at nesting
  exact Bool.false_ne_true nesting

/-- Of the faults of an opening tag only one can be of nesting, where the bound is reached. -/
theorem filter_entryFaults_of_ofNesting
    (ofNesting : ∀ diagnostic, keep diagnostic = true → diagnostic.fault.ofNesting = true)
    (table : BlockTable) (depth : Nat) (token : Token) (helper : String)
    (arguments : List String) :
    ((entryFaults table depth token helper arguments).map
        fun fault => Diagnostic.mk fault token.span).filter keep =
      (if depth = maxBlockDepth then [⟨.nestingTooDeep, token.span⟩] else []).filter keep := by
  have silent {faults : List Fault} (aside : ∀ fault ∈ faults, fault.ofNesting = false) :=
    filter_of_ofNesting ofNesting aside token.span
  simp only [entryFaults, List.map_append, List.filter_append,
    silent fun _ => surplus_ofNesting, silent fun _ => unknownBlock_ofNesting,
    silent fun _ => blockArgument_ofNesting, List.nil_append, List.append_nil]
  by_cases reached : depth = maxBlockDepth
  · rw [if_pos reached, if_pos reached, List.map_singleton]
  · rw [if_neg reached, if_neg reached, List.map_nil]

theorem filter_refused_of_ofNesting
    (ofNesting : ∀ diagnostic, keep diagnostic = true → diagnostic.fault.ofNesting = true)
    {fault : Fault} (closing : fault.ofClosing = true) (span : Span) :
    [Diagnostic.mk fault span].filter keep = [] := by
  have aside : ∀ other ∈ [fault], other.ofNesting = false := by
    intro other member
    rw [List.mem_singleton.mp member]
    exact ofNesting_of_ofClosing closing
  exact filter_of_ofNesting ofNesting aside span

end Filters

namespace Aside

variable {span : Span} {builder after : Builder}

theorem report
    {faults : List Fault} (aside : ∀ fault ∈ faults, fault.ofNesting = false) :
    Aside span builder (builder.report span faults) :=
  ⟨faults, aside, report_diagnostics builder span faults⟩

theorem single {fault : Fault} (aside : fault.ofNesting = false) :
    Aside span builder (builder.report span [fault]) :=
  report fun other member => by rwa [List.mem_singleton.mp member]

private theorem of_same (same : after.diagnostics = builder.diagnostics) :
    Aside span builder after :=
  ⟨[], fun _ member => absurd member List.not_mem_nil, by simp [same]⟩

theorem push (aside : Aside span builder after) (node : Node) :
    Aside span builder (after.push node) := by
  obtain ⟨faults, others, extended⟩ := aside
  exact ⟨faults, others, by rw [push_diagnostics, extended]⟩

theorem trans
    {last : Builder} (first : Aside span builder after) (second : Aside span after last) :
    Aside span builder last := by
  obtain ⟨faults, others, extended⟩ := first
  obtain ⟨laterFaults, laterOthers, laterExtended⟩ := second
  refine ⟨faults ++ laterFaults, ?_, ?_⟩
  · intro fault member
    rcases List.mem_append.mp member with member | member
    · exact others fault member
    · exact laterOthers fault member
  · rw [laterExtended, extended, List.map_append, List.append_assoc]

end Aside

private theorem aside_expression (builder : Builder) (token : Token) (escaped : Bool) :
    Aside token.span builder (builder.expression token escaped) := by
  unfold expression
  split
  · exact .single (by simp [Fault.ofNesting, Fault.kind])
  · split
    · exact (Aside.of_same rfl).push _
    · rename_i failed
      exact .single (readPath_ofNesting failed)
  · exact .report fun _ => surplus_ofNesting

private theorem aside_callPartial (builder : Builder) (token : Token) :
    Aside token.span builder (builder.callPartial token) := by
  unfold callPartial
  split
  · exact .single (by simp [Fault.ofNesting, Fault.kind])
  · rename_i name arguments _
    have reported : Aside token.span builder
        (builder.report token.span (surplus token 1 arguments)) :=
      .report fun _ => surplus_ofNesting
    dsimp only
    split
    · exact reported.push _
    · split
      · exact reported.push _
      · rename_i failed
        exact reported.trans (.single (readPath_ofNesting failed))

private theorem aside_invert (builder : Builder) (token : Token) :
    Aside token.span builder (builder.invert token) := by
  unfold invert
  split
  · split
    · exact .single (by simp [Fault.ofNesting, Fault.kind])
    · split
      · exact .single (by simp [Fault.ofNesting, Fault.kind])
      · exact .of_same rfl
  · exact .single (by simp [Fault.ofNesting, Fault.kind])

private theorem aside_step
    (table : BlockTable) (builder : Builder) {token : Token}
    (noOpening : token.opensBlock = false) (noClosing : token.kind ≠ .blockClose) :
    Aside token.span builder (step table builder token) := by
  unfold step
  split
  · exact (Aside.of_same rfl).push _
  · exact (Aside.of_same rfl).push _
  · exact aside_expression builder token true
  · exact aside_expression builder token false
  · rename_i kind
    have wordless : token.words = [] := by
      simpa [Token.opensBlock, kind] using noOpening
    rw [openBlock, wordless]
    exact .single (by simp [Fault.ofNesting, Fault.kind])
  · exact aside_invert builder token
  · exact absurd ‹_› noClosing
  · exact aside_callPartial builder token
  · exact .of_same rfl
  · exact .of_same rfl
  · exact .of_same rfl

/-! ## Steps -/

/-- What a token can do to a nesting, with the diagnostics that a builder gets of it: none of how
blocks nest, those of an opening tag, that of a closing tag that closes no block, or those of the
blocks that are left open within a closed one. -/
inductive Reports (table : BlockTable) (nesting : Nesting) (token : Token) :
    Nesting → List Diagnostic → Prop
  | aside (faults : List Fault) :
      token.opensBlock = false →
      token.kind ≠ .blockClose →
      (∀ fault ∈ faults, fault.ofNesting = false) →
      Reports table nesting token nesting (faults.map fun fault => ⟨fault, token.span⟩)
  | enter (helper : String) (arguments : List String) :
      token.kind = .blockOpen →
      token.words = helper :: arguments →
      Reports table nesting token { nesting with opened := token :: nesting.opened }
        ((entryFaults table nesting.opened.length token helper arguments).map
          fun fault => ⟨fault, token.span⟩)
  | refuse (fault : Fault) :
      token.kind = .blockClose →
      fault.ofClosing = true →
      Reports table nesting token nesting [⟨fault, token.span⟩]
  | leave {inner outer : List Token} {opening : Token} :
      token.kind = .blockClose →
      nesting.opened = inner ++ opening :: outer →
      opening.words.head? = some token.lexeme →
      Reports table nesting token
        ⟨outer, (opening, token) :: nesting.closed, inner ++ nesting.dropped⟩
        (inner.map Token.unclosed)

theorem unclosed_blocks_run
    (table : BlockTable) {tokens : List Token}
    (inside : ∀ token ∈ tokens, token.kind ≠ .endOfSource) :
    (run table tokens).blocks.map OpenBlock.unclosed =
      (of tokens).opened.map Token.unclosed := by
  obtain ⟨trail, accounted⟩ := exists_accounted_run table inside
  rw [accounted.sound.blocks, accounted.opened, List.map_map, List.map_map]
  apply List.map_congr_left
  intro trace member
  have sound := accounted.sound.traces trace member
  obtain ⟨arguments, words⟩ := List.head?_eq_some_iff.mp sound.named
  rw [Function.comp_apply, Function.comp_apply, OpenBlock.unclosed, Token.unclosed, words,
    List.headD_cons, sound.span]

private theorem head?_words_of_unclosed_eq
    {opening : Token} (opens : opening.opensBlock = true) {block : OpenBlock}
    (same : opening.unclosed = block.unclosed) :
    opening.words.head? = some block.name ∧ block.name ≠ "" := by
  obtain ⟨_, helper, arguments, words⟩ := Token.exists_words_of_opensBlock opens
  rw [Token.unclosed, OpenBlock.unclosed, words, List.headD_cons, Diagnostic.mk.injEq,
    Fault.unclosedBlock.injEq] at same
  rw [← same.1]
  have member : helper ∈ opening.words := by
    rw [words]
    exact List.mem_cons_self
  exact ⟨by rw [words, List.head?_cons], words_ne_empty member⟩

/-- The reports of a token follow from the tags before it. -/
theorem exists_reports
    (table : BlockTable) {tokens : List Token}
    (inside : ∀ token ∈ tokens, token.kind ≠ .endOfSource) (token : Token) :
    ∃ added,
      Reports table (of tokens) token (of (tokens ++ [token])) added ∧
        (run table (tokens ++ [token])).diagnostics.toList =
          (run table tokens).diagnostics.toList ++ added := by
  have linked := unclosed_blocks_run table inside
  have opens (opening : Token) (member : opening ∈ (of tokens).opened) :
      opening.opensBlock = true :=
    (mem_of_mem_openings (List.mem_append_left _ member)).2
  rw [run_append_singleton, of_append_singleton]
  by_cases opening : token.opensBlock = true
  · obtain ⟨kind, helper, arguments, words⟩ := Token.exists_words_of_opensBlock opening
    rw [step, kind, step_of_opensBlock opening]
    dsimp only
    rw [openBlock_eq_enter words, enter_diagnostics, length_blocks_run inside]
    exact ⟨_, .enter helper arguments kind words, rfl⟩
  have noOpening := Bool.eq_false_iff.mpr opening
  by_cases closing : token.kind = .blockClose
  · rw [step, closing]
    dsimp only
    rcases closeBlock_cases (run table tokens) token with
      ⟨fault, ofClosing, refused, unmatched⟩ |
        ⟨inner, block, outer, blocks, same, distinct, _, left⟩
    · rw [refused, report_diagnostics, step_eq_self (by simp [closing])]
      · exact ⟨_, .refuse fault closing ofClosing, rfl⟩
      · intro _ other member named
        have found : other.unclosed ∈ (run table tokens).blocks.map OpenBlock.unclosed := by
          rw [linked]
          exact List.mem_map_of_mem member
        obtain ⟨block, blockMember, blockSame⟩ := List.mem_map.mp found
        obtain ⟨name, nonempty⟩ := head?_words_of_unclosed_eq (opens other member) blockSame.symm
        rw [named] at name
        have lexeme := Option.some.inj name
        exact nonempty (lexeme ▸ unmatched block blockMember lexeme.symm)
    · rw [blocks, List.map_append, List.map_cons] at linked
      obtain ⟨innerTags, rest, opened, innerSame, restSame⟩ :=
        List.map_eq_append_iff.mp linked.symm
      obtain ⟨opening, outerTags, rfl, openingSame, _⟩ := List.map_eq_cons_iff.mp restSame
      rw [opened] at opens
      obtain ⟨name, _⟩ := head?_words_of_unclosed_eq (opens opening (by simp)) openingSame
      rw [same] at name
      have apart : ∀ other ∈ innerTags, other.words.head? ≠ some token.lexeme := by
        intro other member named
        have found : other.unclosed ∈ inner.map OpenBlock.unclosed := by
          rw [← innerSame]
          exact List.mem_map_of_mem member
        obtain ⟨block, blockMember, blockSame⟩ := List.mem_map.mp found
        obtain ⟨otherName, _⟩ := head?_words_of_unclosed_eq
          (opens other (List.mem_append_left _ member)) blockSame.symm
        rw [named] at otherName
        exact distinct block blockMember (Option.some.inj otherName).symm
      rw [left, leave_diagnostics, ← innerSame, step_of_closes closing opened name apart]
      exact ⟨_, .leave closing opened name, rfl⟩
  · obtain ⟨faults, others, extended⟩ :=
      aside_step table (run table tokens) noOpening closing
    have wordless : token.kind = .blockOpen → token.words = [] := by
      intro kind
      simpa [Token.opensBlock, kind] using noOpening
    rw [extended, step_eq_self wordless fun kind => absurd kind closing]
    exact ⟨_, .aside faults noOpening closing others, rfl⟩

end Builder

/-! ## Sources -/

private theorem Token.ofNesting_of_diagnostic?
    {token : Token} {diagnostic : Diagnostic} (reads : token.diagnostic? = some diagnostic) :
    diagnostic.fault.ofNesting = false := by
  obtain ⟨kind, lexeme, trim, span⟩ := token
  cases kind <;> simp [diagnostic?, Kind.fault?] at reads <;>
    simp [← reads, Fault.ofNesting, Fault.kind]

/-- The diagnostics of a source that are of how blocks nest are those of the run and of the
blocks still open at its end. -/
theorem Document.filter_readLenient_of_ofNesting
    (table : BlockTable) (source : String) {keep : Diagnostic → Bool}
    (ofNesting : ∀ diagnostic, keep diagnostic = true → diagnostic.fault.ofNesting = true) :
    (readLenient table source).2.filter keep =
      Diagnostic.sortByPlace
        ((Builder.run table (Token.content source)).diagnostics.toList.filter keep ++
          ((of (Token.content source)).opened.map Token.unclosed).filter keep) := by
  have inside : ∀ token ∈ Token.content source, token.kind ≠ .endOfSource := fun _ =>
    Token.kind_ne_endOfSource_of_mem_content
  have lexical : ((Token.content source).filterMap Token.diagnostic?).filter keep = [] := by
    rw [List.filter_eq_nil_iff]
    intro diagnostic member kept
    obtain ⟨token, _, reads⟩ := List.mem_filterMap.mp member
    have nesting := ofNesting diagnostic kept
    rw [Token.ofNesting_of_diagnostic? reads] at nesting
    exact Bool.false_ne_true nesting
  rw [readLenient_eq]
  dsimp only
  rw [Diagnostic.filter_sortByPlace, List.filter_append, lexical, Builder.finish,
    List.filter_append, Builder.unclosed_blocks_run table inside, List.append_nil]

end Stencil
