import Stencil.Proofs.Builder.Depth

/-!
Reading and the grammar. A run without a diagnostic keeps, for every open block, the part of a
derivation that the block has seen; when the last block has closed, a derivation is complete.
The other way, the builder follows a derivation tag by tag and ends with its nodes.
-/

namespace Stencil

open Grammar

/-! ## From runs to derivations -/

/-- Tokens that lead to open blocks and to nodes outside them, each section derived as far as it
goes. -/
inductive Unfinished (table : BlockTable) : List Token → List OpenBlock → Array Node → Prop
  | root {tokens : List Token} {nodes : Array Node} :
      Section table tokens nodes.toList →
      Unfinished table tokens [] nodes
  | body {before tokens : List Token} {outer : List OpenBlock} {nodes body : Array Node}
      {opening : Token} {helper : String} {argument : Path} :
      Unfinished table before outer nodes →
      outer.length < maxBlockDepth →
      Opens table opening helper argument →
      Section table tokens body.toList →
      Unfinished table (before ++ opening :: tokens)
        (⟨true, ⟨helper, argument, opening.trim, .unmarked, .unmarked, opening.span⟩,
          body, none⟩ :: outer) nodes
  | inverse {before bodyTokens tokens : List Token} {outer : List OpenBlock}
      {nodes body inverse : Array Node} {opening middle : Token} {helper : String}
      {argument : Path} :
      Unfinished table before outer nodes →
      outer.length < maxBlockDepth →
      Opens table opening helper argument →
      Section table bodyTokens body.toList →
      Divides middle →
      Section table tokens inverse.toList →
      Unfinished table (before ++ opening :: (bodyTokens ++ middle :: tokens))
        (⟨true, ⟨helper, argument, opening.trim, middle.trim, .unmarked, opening.span⟩,
          body, some inverse⟩ :: outer) nodes

namespace Unfinished

variable {table : BlockTable}

private theorem section_of_closed
    {tokens : List Token} {nodes : Array Node} (unfinished : Unfinished table tokens [] nodes) :
    Section table tokens nodes.toList := by
  cases unfinished with
  | root section' => exact section'

theorem length_le
    {before : List Token} {blocks : List OpenBlock} {nodes : Array Node}
    (unfinished : Unfinished table before blocks nodes) :
    blocks.length ≤ maxBlockDepth := by
  cases unfinished with
  | root => exact Nat.zero_le _
  | body _ room => exact room
  | inverse _ room => exact room

theorem push
    {before tokens : List Token} {builder : Builder} {node : Node}
    (unfinished : Unfinished table before builder.blocks builder.nodes)
    (derived : Section table tokens [node]) :
    Unfinished table (before ++ tokens) (builder.push node).blocks (builder.push node).nodes := by
  obtain ⟨nodes, blocks, diagnostics⟩ := builder
  cases unfinished with
  | root section' =>
      refine .root ?_
      rw [Builder.push, Array.toList_push]
      exact section'.append derived
  | body outer room opens section' =>
      rw [List.append_assoc, List.cons_append]
      refine .body outer room opens ?_
      rw [Array.toList_push]
      exact section'.append derived
  | inverse outer room opens bodySection divides section' =>
      rw [List.append_assoc, List.cons_append, List.append_assoc, List.cons_append]
      refine .inverse outer room opens bodySection divides ?_
      rw [Array.toList_push]
      exact section'.append derived

theorem close
    {before : List Token} {block : OpenBlock} {outer : List OpenBlock} {nodes : Array Node}
    {token : Token} (unfinished : Unfinished table before (block :: outer) nodes)
    (closes : Closes token block.name) :
    ∃ start tokens,
      before ++ [token] = start ++ tokens ∧ Unfinished table start outer nodes ∧
        Section table tokens [block.close token.trim] ∧ block.kept = true := by
  cases unfinished with
  | @body start tokens _ _ body opening helper argument enclosing _ opens section' =>
      refine ⟨start, opening :: (tokens ++ [token]), by simp, enclosing, ?_, rfl⟩
      exact .block opens section' closes .nil
  | @inverse start bodyTokens tokens _ _ body inverse opening middle helper argument
      enclosing _ opens bodySection divides section' =>
      refine ⟨start, opening :: (bodyTokens ++ middle :: (tokens ++ [token])), by simp,
        enclosing, ?_, rfl⟩
      exact .dividedBlock opens bodySection divides section' closes .nil

end Unfinished

namespace Builder

variable {table : BlockTable}

private theorem map_eq_nil_of_append
    {α β : Type} {start : List α} {items : List β} {change : β → α}
    (same : start ++ items.map change = start) :
    items = [] := by
  have nil := List.append_right_eq_self.mp same
  exact List.map_eq_nil_iff.mp nil

private theorem Step.unfinished
    {before : List Token} {builder after : Builder} {token : Token}
    (step : Step table builder token after)
    (silent : after.diagnostics = builder.diagnostics)
    (delimited : token.diagnostic? = none) (inside : token.kind ≠ .endOfSource)
    (unfinished : Unfinished table before builder.blocks builder.nodes) :
    Unfinished table (before ++ [token]) after.blocks after.nodes := by
  have sameList := congrArg Array.toList silent
  cases step with
  | pass reason =>
      rcases reason with last | lexical
      · exact absurd last inside
      · simp [delimited] at lexical
  | refuse faults _ some =>
      rw [report_diagnostics] at sameList
      exact absurd (map_eq_nil_of_append sameList) some
  | add node faults _ _ _ strict =>
      rw [push_diagnostics, report_diagnostics] at sameList
      have faultless := map_eq_nil_of_append sameList
      rw [faultless, report_nil]
      exact unfinished.push (.single (strict faultless))
  | enter helper arguments kind words =>
      rw [enter_diagnostics] at sameList
      have faultless := map_eq_nil_of_append sameList
      obtain ⟨opens, known, notDeep⟩ := opens_of_entryFaults_eq_nil kind words faultless
      have room : builder.blocks.length < maxBlockDepth :=
        Nat.lt_of_le_of_ne unfinished.length_le notDeep
      rw [enter_blocks, enter_nodes, entry, known, decide_eq_true room]
      exact .body unfinished room opens .nil
  | turn block outer divides blocks first =>
      rw [blocks] at unfinished
      cases unfinished with
      | body enclosing room opens section' =>
          rw [List.append_assoc, List.cons_append]
          exact .inverse enclosing room opens section' divides .nil
      | inverse => exact absurd first (by simp)
  | leave inner block outer closes _ blocks distinct =>
      rw [leave_diagnostics] at sameList
      have alone := map_eq_nil_of_append sameList
      -- No diagnostic means that no block within was dropped.
      subst alone
      rw [List.nil_append] at blocks
      rw [blocks] at unfinished
      obtain ⟨start, tokens, split, enclosing, derived, kept⟩ := unfinished.close closes
      rw [split, Builder.leave, if_pos kept]
      exact enclosing.push derived

private theorem unfinished_foldl
    {before tokens : List Token} {builder : Builder}
    (silent : (tokens.foldl (step table) builder).diagnostics = #[])
    (delimited : ∀ token ∈ tokens, token.diagnostic? = none)
    (inside : ∀ token ∈ tokens, token.kind ≠ .endOfSource)
    (unfinished : Unfinished table before builder.blocks builder.nodes) :
    Unfinished table (before ++ tokens) (tokens.foldl (step table) builder).blocks
      (tokens.foldl (step table) builder).nodes := by
  induction tokens generalizing before builder with
  | nil => rwa [List.append_nil]
  | cons token rest inductionHypothesis =>
      -- Diagnostics only grow, so a silent run is silent at its first step too.
      have spec := step_spec table builder token
      obtain ⟨first, firstEqual⟩ := spec.exists_diagnostics
      obtain ⟨others, othersEqual⟩ :=
        exists_diagnostics_foldl table (step table builder token) rest
      rw [List.foldl_cons] at silent
      rw [silent, firstEqual] at othersEqual
      have none := (List.append_eq_nil_iff.mp othersEqual.symm).1
      have silentStep : (step table builder token).diagnostics = builder.diagnostics := by
        apply Array.ext'
        rw [firstEqual, (List.append_eq_nil_iff.mp none).2, List.append_nil]
      have stepped :=
        spec.unfinished silentStep (delimited token List.mem_cons_self)
          (inside token List.mem_cons_self) unfinished
      have finished :=
        inductionHypothesis silent
          (fun other member => delimited other (List.mem_cons_of_mem token member))
          (fun other member => inside other (List.mem_cons_of_mem token member)) stepped
      rwa [List.append_assoc] at finished

end Builder

/-! ## From derivations to runs -/

namespace Grammar

private theorem Opens.mem_words
    {table : BlockTable} {token : Token} {helper : String} {argument : Path}
    (opens : Opens table token helper argument) :
    helper ∈ token.words := by
  cases opens with
  | bare _ words => simp [words]
  | argument _ words => simp [words]

theorem Opens.kind
    {table : BlockTable} {token : Token} {helper : String} {argument : Path}
    (opens : Opens table token helper argument) :
    token.kind = .blockOpen := by
  cases opens with
  | bare kind => exact kind
  | argument kind => exact kind

theorem Opens.known
    {table : BlockTable} {token : Token} {helper : String} {argument : Path}
    (opens : Opens table token helper argument) :
    (table.rule? helper).isSome = true := by
  cases opens with
  | bare _ _ rule => rw [rule]; rfl
  | argument _ _ known => exact known

end Grammar

namespace OpenBlock

private theorem foldl_push_body
    {block : OpenBlock} (whole : block.inverse = none) (nodes : List Node) :
    nodes.foldl push block = { block with body := block.body ++ nodes } := by
  induction nodes generalizing block with
  | nil => simp
  | cons node rest inductionHypothesis =>
      have pushed := push_of_whole whole node
      have stillWhole : (block.push node).inverse = none := by rw [pushed, whole]
      have rest' := inductionHypothesis stillWhole
      rw [List.foldl_cons, rest', pushed]
      simp

private theorem foldl_push_inverse
    {block : OpenBlock} {inverse : Array Node} (divided : block.inverse = some inverse)
    (nodes : List Node) :
    nodes.foldl push block = { block with inverse := some (inverse ++ nodes) } := by
  induction nodes generalizing block inverse with
  | nil => simp [← divided]
  | cons node rest inductionHypothesis =>
      rw [List.foldl_cons, push_of_divided divided, inductionHypothesis rfl]
      simp

end OpenBlock

namespace Builder

variable {table : BlockTable}

private theorem foldl_push_blocks
    (builder : Builder) (block : OpenBlock) (outer : List OpenBlock) (nodes : List Node) :
    nodes.foldl push { builder with blocks := block :: outer } =
      { builder with blocks := nodes.foldl OpenBlock.push block :: outer } := by
  induction nodes generalizing block with
  | nil => rfl
  | cons node rest inductionHypothesis => exact inductionHypothesis (block.push node)

private theorem step_leaf
    {token : Token} {node : Node} (leaf : Leaf token node) (builder : Builder) :
    step table builder token = builder.push node := by
  cases leaf with
  | text kind => simp only [step, kind]
  | comment kind => simp only [step, kind]
  | escaped kind words read => simp only [step, kind, expression, words, readPath_eq, read]
  | raw kind words read => simp only [step, kind, expression, words, readPath_eq, read]
  | partialTag kind words =>
      simp only [step, kind, callPartial, words]
      rfl
  | scopedPartialTag kind words read =>
      simp only [step, kind, callPartial, words, readPath_eq, read]
      rfl

private theorem entryFaults_eq_nil_of_opens
    {token : Token} {helper : String} {argument : Path}
    (opens : Opens table token helper argument) {depth : Nat}
    (notDeep : depth ≠ maxBlockDepth) :
    ∃ arguments,
      token.words = helper :: arguments ∧ Token.argument arguments = argument ∧
        entryFaults table depth token helper arguments = [] := by
  cases opens with
  | bare kind words rule =>
      refine ⟨[], words, rfl, ?_⟩
      simp [entryFaults, surplus, blockArgument, rule, notDeep]
  | argument kind words known read =>
      obtain ⟨rule, ruleEqual⟩ := Option.isSome_iff_exists.mp known
      refine ⟨[_], words, by simp [Token.argument, read, Except.toOption], ?_⟩
      simp [entryFaults, surplus, blockArgument, readPath_eq, read, ruleEqual, notDeep]

private theorem step_opens
    {token : Token} {helper : String} {argument : Path}
    (opens : Opens table token helper argument) {builder : Builder}
    (room : builder.blocks.length < maxBlockDepth) :
    step table builder token =
      { builder with
        blocks := ⟨true, ⟨helper, argument, token.trim, .unmarked, .unmarked, token.span⟩,
          #[], none⟩ :: builder.blocks } := by
  obtain ⟨arguments, words, path, faultless⟩ :=
    entryFaults_eq_nil_of_opens opens (Nat.ne_of_lt room)
  simp only [step, opens.kind, openBlock_eq_enter words, enter, faultless, report_nil, entry,
    opens.known, path, decide_eq_true room, Bool.and_self]

private theorem step_divides
    {token : Token} (divides : Divides token) {builder : Builder} {block : OpenBlock}
    {outer : List OpenBlock} (blocks : builder.blocks = block :: outer)
    (whole : block.inverse = none) :
    step table builder token =
      { builder with blocks := block.invert token.trim :: outer } := by
  simp [step, divides.kind, invert, divides.empty, blocks, whole]

private theorem step_closes
    {token : Token} {helper : String} (closes : Closes token helper) (named : helper ≠ "")
    {builder : Builder} {block : OpenBlock} {outer : List OpenBlock}
    (blocks : builder.blocks = block :: outer) (same : block.name = helper)
    (kept : block.kept = true) :
    step table builder token =
      { builder with blocks := outer }.push (block.close token.trim) := by
  simp [step, closes.kind, closeBlock, closes.name, blocks, same, named, kept]

/-- The builder follows a derivation and adds its nodes. -/
theorem foldl_step_of_section
    {tokens : List Token} {nodes : List Node} (derived : Section table tokens nodes)
    {builder : Builder}
    (room : builder.blocks.length + Node.depthNodes nodes ≤ maxBlockDepth) :
    tokens.foldl (step table) builder = nodes.foldl push builder := by
  -- A block adds its node to the builder it was opened in; its body runs one level further in.
  induction derived generalizing builder with
  | nil => rfl
  | @leaf token node tokens nodes leaf _ inductionHypothesis =>
      rw [Node.depthNodes, leaf.depth_eq, Nat.zero_max] at room
      rw [List.foldl_cons, List.foldl_cons, step_leaf leaf]
      exact inductionHypothesis (by rwa [length_blocks_push])
  | @block opening closing helper argument bodyTokens tokens body nodes opens _ closes _
      bodyRun restRun =>
      simp only [Node.depthNodes, Node.depth, Node.depthInverse] at room
      have here : builder.blocks.length < maxBlockDepth := by omega
      have named : helper ≠ "" := words_ne_empty opens.mem_words
      rw [List.foldl_cons, step_opens opens here, List.foldl_append,
        bodyRun (by simp only [List.length_cons]; omega), foldl_push_blocks,
        OpenBlock.foldl_push_body rfl, List.foldl_cons, step_closes closes named rfl rfl rfl,
        restRun (by rw [length_blocks_push]; show builder.blocks.length + _ ≤ _; omega),
        List.foldl_cons]
      simp [OpenBlock.close]
  | @dividedBlock opening middle closing helper argument bodyTokens inverseTokens tokens body
      inverse nodes opens _ divides _ closes _ bodyRun inverseRun restRun =>
      simp only [Node.depthNodes, Node.depth, Node.depthInverse] at room
      have here : builder.blocks.length < maxBlockDepth := by omega
      have named : helper ≠ "" := words_ne_empty opens.mem_words
      rw [List.foldl_cons, step_opens opens here, List.foldl_append,
        bodyRun (by simp only [List.length_cons]; omega), foldl_push_blocks,
        OpenBlock.foldl_push_body rfl, List.foldl_cons, step_divides divides rfl rfl,
        List.foldl_append, inverseRun (by simp only [List.length_cons]; omega),
        foldl_push_blocks, OpenBlock.foldl_push_inverse rfl, List.foldl_cons,
        step_closes closes named rfl rfl rfl,
        restRun (by rw [length_blocks_push]; show builder.blocks.length + _ ≤ _; omega),
        List.foldl_cons]
      simp [OpenBlock.close, OpenBlock.invert]

private theorem foldl_push_root
    {builder : Builder} (outside : builder.blocks = []) (nodes : List Node) :
    nodes.foldl push builder = { builder with nodes := builder.nodes ++ nodes } := by
  induction nodes generalizing builder with
  | nil => simp
  | cons node rest inductionHypothesis =>
      have pushed := push_outside outside node
      have stillOutside : (builder.push node).blocks = [] := by rw [pushed, outside]
      have rest' := inductionHypothesis stillOutside
      rw [List.foldl_cons, rest', pushed]
      simp

end Builder

/-! ## Strict reading -/

namespace Grammar

private theorem Leaf.diagnostic?_eq
    {token : Token} {node : Node} (leaf : Leaf token node) :
    token.diagnostic? = none := by
  cases leaf with
  | text kind => simp [Token.diagnostic?, kind, Token.Kind.fault?]
  | comment kind => simp [Token.diagnostic?, kind, Token.Kind.fault?]
  | escaped kind => simp [Token.diagnostic?, kind, Token.Kind.fault?]
  | raw kind => simp [Token.diagnostic?, kind, Token.Kind.fault?]
  | partialTag kind => simp [Token.diagnostic?, kind, Token.Kind.fault?]
  | scopedPartialTag kind => simp [Token.diagnostic?, kind, Token.Kind.fault?]

private theorem Section.filterMap_diagnostic?
    {table : BlockTable} {tokens : List Token} {nodes : List Node}
    (derived : Section table tokens nodes) :
    tokens.filterMap Token.diagnostic? = [] := by
  have openings {token : Token} {helper : String} {argument : Path}
      (opens : Opens table token helper argument) : token.diagnostic? = none := by
    simp [Token.diagnostic?, opens.kind, Token.Kind.fault?]
  have middles {token : Token} (divides : Divides token) : token.diagnostic? = none := by
    simp [Token.diagnostic?, divides.kind, Token.Kind.fault?]
  have closings {token : Token} {helper : String} (closes : Closes token helper) :
      token.diagnostic? = none := by
    simp [Token.diagnostic?, closes.kind, Token.Kind.fault?]
  induction derived with
  | nil => rfl
  | leaf leaf _ inductionHypothesis =>
      rw [List.filterMap_cons_none leaf.diagnostic?_eq, inductionHypothesis]
  | block opens _ closes _ bodyNone restNone =>
      rw [List.filterMap_cons_none (openings opens), List.filterMap_append, bodyNone,
        List.filterMap_cons_none (closings closes), restNone]
      rfl
  | dividedBlock opens _ divides _ closes _ bodyNone inverseNone restNone =>
      rw [List.filterMap_cons_none (openings opens), List.filterMap_append, bodyNone,
        List.filterMap_cons_none (middles divides), List.filterMap_append, inverseNone,
        List.filterMap_cons_none (closings closes), restNone]
      rfl

end Grammar

namespace Document

variable {table : BlockTable} {source : String} {document : Document}

theorem section_of_read (accepted : read table source = .ok document) :
    Section table (Token.content source) document.nodes := by
  obtain ⟨finished, delimited, rfl⟩ := read_eq_ok_iff_faultless.mp accepted
  obtain ⟨silent, closed⟩ := List.append_eq_nil_iff.mp finished
  have nothing : Unfinished table [] Builder.empty.blocks Builder.empty.nodes := .root .nil
  have derived :
      Unfinished table (Token.content source)
        (Builder.run table (Token.content source)).blocks
        (Builder.run table (Token.content source)).nodes :=
    Builder.unfinished_foldl (Array.ext' silent) (List.filterMap_eq_nil_iff.mp delimited)
      (fun _ member => Token.kind_ne_endOfSource_of_mem_content member) nothing
  rw [List.map_eq_nil_iff.mp closed] at derived
  exact derived.section_of_closed

theorem read_of_section
    (derived : Section table (Token.content source) document.nodes)
    (shallow : document.depth ≤ maxBlockDepth) :
    read table source = .ok document := by
  have room : Builder.empty.blocks.length + Node.depthNodes document.nodes ≤ maxBlockDepth := by
    rw [Builder.empty, List.length_nil, Nat.zero_add]
    exact shallow
  have built : Builder.run table (Token.content source) =
      ⟨(#[] : Array Node) ++ document.nodes, [], #[]⟩ := by
    rw [Builder.run, Builder.foldl_step_of_section derived room, Builder.foldl_push_root rfl]
    rfl
  rw [read_eq_ok_iff_faultless, built]
  refine ⟨rfl, derived.filterMap_diagnostic?, ?_⟩
  simp [Builder.document]

/-- Reading accepts exactly the sources that the grammar derives within the nesting bound, and
the document that it gives, laid flat, is what the tokens of the source stand for, one by one. -/
theorem read_accepts_grammar (table : BlockTable) (source : String) (document : Document) :
    (read table source = .ok document ↔
      Section table (Token.content source) document.nodes ∧ document.depth ≤ maxBlockDepth) ∧
    (read table source = .ok document →
      (Token.content source).map Token.mark? = document.marks.map some) := by
  refine ⟨⟨?_, ?_⟩, ?_⟩
  · intro accepted
    refine ⟨section_of_read accepted, ?_⟩
    obtain ⟨_, _, rfl⟩ := read_eq_ok_iff_faultless.mp accepted
    exact Builder.depth_run_le table (Token.content source)
  · rintro ⟨derived, shallow⟩
    exact read_of_section derived shallow
  · intro accepted
    exact (section_of_read accepted).marks_eq

/-- A block with two sections, after a run of text. -/
theorem read_accepts_grammar_divided :
    let source := "a" ++ Fault.tagText "#if x" ++ "b" ++ Fault.tagText "else" ++
      Fault.tagText "> p" ++ Fault.tagText "/if"
    let document : Document :=
      ⟨[.text "a" ⟨⟨1, 1⟩, 1⟩,
        .block ⟨"if", ⟨0, .context, ["x"]⟩, .unmarked, .unmarked, .unmarked, ⟨⟨1, 2⟩, 9⟩⟩
          [.text "b" ⟨⟨1, 11⟩, 1⟩]
          (some [.partialTag "p" none .unmarked ⟨⟨1, 20⟩, 7⟩])]⟩
    read .builtin source = .ok document ∧
      (Token.content source).map Token.mark? = document.marks.map some := by
  intro source document
  have accepted : read .builtin source = .ok document := by decide +kernel
  exact ⟨accepted, (read_accepts_grammar .builtin source document).2 accepted⟩

end Document

end Stencil
