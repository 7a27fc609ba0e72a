import Stencil.Proofs.Builder.Trail

/-!
What becomes of each token that a builder takes up. It is shown in the document or in an open
block, or there is a diagnostic for it, or it went away with a block that was dropped or has no
place in a document.
-/

namespace Stencil

open Nesting

/-- Whether a builder has a diagnostic at the place of a token. -/
def Builder.Notes (builder : Builder) (token : Token) : Prop :=
  ∃ diagnostic ∈ builder.diagnostics.toList, diagnostic.span = token.span

/-- Why a token is not shown. -/
inductive Explained (table : BlockTable) (tokens : List Token) (builder : Builder)
    (token : Token) : Prop
  | noted :
      builder.Notes token →
      Explained table tokens builder token
  | lexical :
      token.diagnostic?.isSome = true →
      Explained table tokens builder token
  | lost {opening : Token} :
      opening ∈ (of tokens).dropped ∨ Misplaced table tokens opening →
      token = opening ∨ Belongs tokens token opening →
      Explained table tokens builder token

/-- Every token is shown or there is an explanation why it is not. -/
structure Accounted (table : BlockTable) (tokens : List Token) (builder : Builder)
    (trail : Trail) : Prop where
  sound : trail.Sound table tokens builder
  opened : (of tokens).opened = trail.traces.map Trace.opening
  sublist : trail.all.Sublist tokens
  dropped : ∀ opening ∈ (of tokens).dropped, builder.Notes opening
  covered : ∀ token ∈ tokens, token ∈ trail.all ∨ Explained table tokens builder token

theorem Builder.Notes.mono
    {builder after : Builder} {more : List Diagnostic}
    (extended : after.diagnostics.toList = builder.diagnostics.toList ++ more) {token : Token}
    (noted : builder.Notes token) :
    after.Notes token := by
  obtain ⟨diagnostic, member, span⟩ := noted
  refine ⟨diagnostic, ?_, span⟩
  rw [extended]
  exact List.mem_append_left more member

theorem Builder.notes_report
    (builder : Builder) (token : Token) {faults : List Fault} (some : faults ≠ []) :
    (builder.report token.span faults).Notes token := by
  obtain ⟨fault, others, rfl⟩ := List.exists_cons_of_ne_nil some
  refine ⟨⟨fault, token.span⟩, ?_, rfl⟩
  rw [report_diagnostics]
  exact List.mem_append_right _ (List.mem_map_of_mem List.mem_cons_self)

private theorem Nesting.dropped_subset (tokens : List Token) (token : Token) :
    (of tokens).dropped ⊆ (of (tokens ++ [token])).dropped := by
  have spec := step_spec (of tokens) token
  rw [of_append_singleton]
  generalize (of tokens).step token = next at spec
  cases spec with
  | stay => exact fun _ member => member
  | enter => exact fun _ member => member
  | leave => exact fun _ member => List.mem_append_right _ member

private theorem Nesting.belongs_last
    {tokens : List Token} {token opening : Token} (opened : opening ∈ (of tokens).opened)
    (still : opening ∈ (of (tokens ++ [token])).opened ∨
      (opening, token) ∈ (of (tokens ++ [token])).closed) :
    Belongs (tokens ++ [token]) token opening :=
  ⟨tokens, [], rfl, opened, still⟩

theorem Explained.next
    {table : BlockTable} {tokens : List Token} {builder after : Builder} {token : Token}
    {more : List Diagnostic}
    (extended : after.diagnostics.toList = builder.diagnostics.toList ++ more) (last : Token)
    (explained : Explained table tokens builder token) :
    Explained table (tokens ++ [last]) after token := by
  cases explained with
  | noted noted => exact .noted (noted.mono extended)
  | lexical lexical => exact .lexical lexical
  | lost discarded within =>
      refine .lost (discarded.imp ?_ ?_) (within.imp_right ?_)
      · exact fun member => dropped_subset tokens last member
      · exact fun misplaced => misplaced.append [last]
      · exact fun belongs => belongs.append [last]

namespace Accounted

variable {table : BlockTable} {tokens : List Token} {builder after : Builder} {trail : Trail}
  {token : Token}

/-- A token belongs to all the open blocks if they stay open. -/
theorem belongs_of_open
    (accounted : Accounted table tokens builder trail)
    (open' : ∀ opening ∈ (of tokens).opened, opening ∈ (of (tokens ++ [token])).opened) :
    ∀ trace ∈ trail.traces, Belongs (tokens ++ [token]) token trace.opening := by
  intro trace member
  have opened : trace.opening ∈ (of tokens).opened := by
    rw [accounted.opened]
    exact List.mem_map_of_mem member
  exact belongs_last opened (.inl (open' trace.opening opened))

private theorem covered_shown
    (accounted : Accounted table tokens builder trail) {more : List Diagnostic}
    (extended : after.diagnostics.toList = builder.diagnostics.toList ++ more) :
    ∀ other ∈ tokens ++ [token],
      other ∈ trail.all ++ [token] ∨ Explained table (tokens ++ [token]) after other := by
  intro other member
  rcases List.mem_append.mp member with earlier | last
  · rcases accounted.covered other earlier with shown | explained
    · exact .inl (List.mem_append_left _ shown)
    · exact .inr (explained.next extended token)
  · exact .inl (List.mem_append_right _ last)

theorem stay
    (accounted : Accounted table tokens builder trail) (nodes : after.nodes = builder.nodes)
    (blocks : after.blocks = builder.blocks) {more : List Diagnostic}
    (extended : after.diagnostics.toList = builder.diagnostics.toList ++ more)
    (same : (of tokens).step token = of tokens)
    (explained : Explained table (tokens ++ [token]) after token) :
    Accounted table (tokens ++ [token]) after trail := by
  obtain ⟨sound, opened, sublist, dropped, covered⟩ := accounted
  have nesting : of (tokens ++ [token]) = of tokens := by rw [of_append_singleton, same]
  refine ⟨(sound.append [token]).congr nodes blocks, ?_, ?_, ?_, ?_⟩
  · rw [nesting, opened]
  · exact sublist.trans (List.sublist_append_left tokens [token])
  · rw [nesting]
    exact fun opening member => (dropped opening member).mono extended
  · intro other member
    rcases List.mem_append.mp member with earlier | last
    · exact (covered other earlier).imp_right (Explained.next extended token)
    · rw [List.mem_singleton.mp last]
      exact .inr explained

theorem add
    (accounted : Accounted table tokens builder trail) (nodes : after.nodes = builder.nodes)
    (blocks : after.blocks = builder.blocks) {more : List Diagnostic}
    (extended : after.diagnostics.toList = builder.diagnostics.toList ++ more)
    (same : (of tokens).step token = of tokens) {node : Node}
    (marks : node.marks.map some = [token.mark?]) :
    Accounted table (tokens ++ [token]) (after.push node) (trail.push node [token]) := by
  have nesting : of (tokens ++ [token]) = of tokens := by rw [of_append_singleton, same]
  have inside := accounted.belongs_of_open fun _ opened => nesting.symm ▸ opened
  rw [← Builder.push_diagnostics after node] at extended
  refine ⟨?_, ?_, ?_, ?_, ?_⟩
  · refine ((accounted.sound.append [token]).congr nodes blocks).push marks ?_
    intro last member
    rw [List.mem_singleton.mp member]
    exact inside
  · rw [nesting, accounted.opened]
    obtain ⟨root, traces⟩ := trail
    cases traces <;> rfl
  · rw [Trail.all_push]
    exact accounted.sublist.append_right [token]
  · rw [nesting]
    exact fun opening member => (accounted.dropped opening member).mono extended
  · rw [Trail.all_push]
    exact accounted.covered_shown extended

theorem enter
    (accounted : Accounted table tokens builder trail) {helper : String}
    {arguments : List String} (kind : token.kind = .blockOpen)
    (words : token.words = helper :: arguments) :
    Accounted table (tokens ++ [token]) (Builder.enter table builder token helper arguments)
      ⟨trail.root,
        ⟨Builder.entry table builder.blocks.length token helper arguments, token, [token]⟩ ::
          trail.traces⟩ := by
  have opens : token.opensBlock = true := by simp [Token.opensBlock, kind, words]
  have nesting : of (tokens ++ [token]) =
      { of tokens with opened := token :: (of tokens).opened } := by
    rw [of_append_singleton, step_of_opensBlock opens]
  have inside := accounted.belongs_of_open fun opening opened => by
    rw [nesting]
    exact List.mem_cons_of_mem token opened
  have extended := Builder.enter_diagnostics table builder token helper arguments
  have depth : builder.blocks.length = (of tokens).opened.length := by
    rw [accounted.sound.blocks, accounted.opened, List.length_map, List.length_map]
  obtain ⟨nodes, blocks, traces, enclosed⟩ := accounted.sound.append [token]
  refine ⟨⟨nodes, ?_, ?_, ?_⟩, ?_, ?_, ?_, ?_⟩
  · rw [Builder.enter_blocks, List.map_cons, blocks]
  · intro trace member
    rcases List.mem_cons.mp member with rfl | outer
    · refine ⟨by rw [words]; rfl, rfl, ?_, fun other shown => .inl (List.mem_singleton.mp shown),
        fun unkept => ?_⟩
      · simp [OpenBlock.marks, Builder.entry, Node.marksInverse, Node.marksNodes, Token.mark?,
          kind, words]
      · simp only [Builder.entry, Bool.and_eq_false_iff, decide_eq_false_iff_not, not_lt,
          depth] at unkept
        rcases unkept with missing | deep
        · exact .unknown List.mem_concat_self kind words missing
        · exact .tooDeep rfl opens deep
    · exact traces trace outer
  · refine List.pairwise_cons.mpr ⟨?_, enclosed⟩
    intro trace member other shown
    rw [List.mem_singleton.mp shown]
    exact inside trace member
  · rw [nesting, List.map_cons, accounted.opened]
  · exact accounted.sublist.append_right [token]
  · rw [nesting]
    exact fun opening member => (accounted.dropped opening member).mono extended
  · exact accounted.covered_shown extended

theorem turn
    (accounted : Accounted table tokens builder trail) {block : OpenBlock}
    {outer : List OpenBlock} (divides : Grammar.Divides token)
    (blocks : builder.blocks = block :: outer) (whole : block.inverse = none) :
    ∃ next, Accounted table (tokens ++ [token])
      { builder with blocks := block.invert token.trim :: outer } next := by
  have same : (of tokens).step token = of tokens :=
    step_eq_self (by simp [divides.kind]) (by simp [divides.kind])
  have nesting : of (tokens ++ [token]) = of tokens := by rw [of_append_singleton, same]
  have inside := accounted.belongs_of_open fun _ opened => nesting.symm ▸ opened
  obtain ⟨nodes, blocks', traces, enclosed⟩ := accounted.sound.append [token]
  obtain ⟨root, _ | ⟨trace, others⟩⟩ := trail
  · rw [blocks] at blocks'
    exact absurd blocks' (List.cons_ne_nil _ _)
  rw [blocks] at blocks'
  obtain ⟨rfl, rfl⟩ := List.cons.inj blocks'
  let after : Builder :=
    { builder with blocks := trace.block.invert token.trim :: others.map Trace.block }
  have extended : after.diagnostics.toList = builder.diagnostics.toList ++ [] :=
    (List.append_nil _).symm
  have all : Trail.shown root others ++ (trace.shown ++ [token]) =
      Trail.shown root (trace :: others) ++ [token] := (List.append_assoc _ _ _).symm
  refine ⟨⟨root, ⟨trace.block.invert token.trim, trace.opening, trace.shown ++ [token]⟩ ::
    others⟩, ⟨nodes, rfl, ?_, ?_⟩, ?_, ?_, ?_, ?_⟩
  · intro other member
    rcases List.mem_cons.mp member with rfl | later
    · refine (traces trace List.mem_cons_self).extend rfl rfl rfl ?_ ?_
      · rw [OpenBlock.marks_invert whole, List.map_append, List.map_singleton,
          List.map_singleton, divides.mark?_eq]
      · intro last now
        rw [List.mem_singleton.mp now]
        exact inside trace List.mem_cons_self
    · exact traces other (List.mem_cons_of_mem trace later)
  · refine Trail.pairwise_extend enclosed fun last now other later => ?_
    rw [List.mem_singleton.mp now]
    exact inside other (List.mem_cons_of_mem trace later)
  · rw [nesting, accounted.opened]
    rfl
  · rw [Trail.all, Trail.shown, all]
    exact accounted.sublist.append_right [token]
  · rw [nesting]
    exact accounted.dropped
  · rw [Trail.all, Trail.shown, all]
    exact accounted.covered_shown extended

/-! ## Closing -/

section Closing

variable {root : List Token} {inner outer : List Trace} {trace : Trace}

private theorem of_leave
    (accounted : Accounted table tokens builder ⟨root, inner ++ trace :: outer⟩)
    (closes : Grammar.Closes token trace.block.name)
    (distinct : ∀ other ∈ inner, other.block.name ≠ token.lexeme) :
    of (tokens ++ [token]) =
      ⟨outer.map Trace.opening, (trace.opening, token) :: (of tokens).closed,
        inner.map Trace.opening ++ (of tokens).dropped⟩ := by
  have sounds := accounted.sound.traces
  have opened : (of tokens).opened =
      inner.map Trace.opening ++ trace.opening :: outer.map Trace.opening := by
    rw [accounted.opened, List.map_append, List.map_cons]
  have named : trace.opening.words.head? = some token.lexeme := by
    rw [closes.name]
    exact (sounds trace (by simp)).named
  rw [of_append_singleton]
  refine step_of_closes closes.kind opened named fun opening member same => ?_
  obtain ⟨other, otherMember, rfl⟩ := List.mem_map.mp member
  rw [(sounds other (List.mem_append_left _ otherMember)).named] at same
  exact distinct other otherMember (Option.some.inj same)

private theorem sound_outer
    (sound : Trail.Sound table tokens builder ⟨root, inner ++ trace :: outer⟩)
    {after : Builder} (nodes : after.nodes = builder.nodes)
    (blocks : after.blocks = outer.map Trace.block) :
    Trail.Sound table tokens after ⟨root, outer⟩ := by
  refine ⟨by rw [nodes]; exact sound.nodes, blocks, fun other member => ?_, ?_⟩
  · exact sound.traces other (List.mem_append_right _ (List.mem_cons_of_mem trace member))
  · exact (List.pairwise_cons.mp (List.pairwise_append.mp sound.enclosed).2.1).2

private theorem notes_of_dropped
    (accounted : Accounted table tokens builder ⟨root, inner ++ trace :: outer⟩)
    {after : Builder}
    (extended : after.diagnostics.toList =
      builder.diagnostics.toList ++ (inner.map Trace.block).map OpenBlock.unclosed)
    {opening : Token}
    (member : opening ∈ inner.map Trace.opening ++ (of tokens).dropped) :
    after.Notes opening := by
  rcases List.mem_append.mp member with now | earlier
  · obtain ⟨other, otherMember, rfl⟩ := List.mem_map.mp now
    refine ⟨other.block.unclosed, ?_, ?_⟩
    · rw [extended]
      exact List.mem_append_right _ (List.mem_map_of_mem (List.mem_map_of_mem otherMember))
    · exact (accounted.sound.traces other (List.mem_append_left _ otherMember)).span
  · exact (accounted.dropped opening earlier).mono extended

/-- A token of a block that closes, and of the blocks within it. -/
theorem shown_cases
    {other : Token} (shown : other ∈ Trail.shown root (inner ++ trace :: outer)) :
    other ∈ Trail.shown root outer ∨ other ∈ trace.shown ∨
      ∃ dropped ∈ inner, other ∈ dropped.shown := by
  rcases Trail.mem_shown.mp shown with outside | ⟨found, member, inside⟩
  · exact .inl (Trail.mem_shown.mpr (.inl outside))
  · rcases List.mem_append.mp member with dropped | rest
    · exact .inr (.inr ⟨found, dropped, inside⟩)
    · rcases List.mem_cons.mp rest with rfl | around
      · exact .inr (.inl inside)
      · exact .inl (Trail.mem_shown.mpr (.inr ⟨found, around, inside⟩))

private theorem explained_of_dropped
    (accounted : Accounted table tokens builder ⟨root, inner ++ trace :: outer⟩)
    (nesting : of (tokens ++ [token]) =
      ⟨outer.map Trace.opening, (trace.opening, token) :: (of tokens).closed,
        inner.map Trace.opening ++ (of tokens).dropped⟩)
    {other : Token} {dropped : Trace} (member : dropped ∈ inner)
    (shown : other ∈ dropped.shown) :
    Explained table (tokens ++ [token]) after other := by
  have sound := (accounted.sound.append [token]).traces dropped (List.mem_append_left _ member)
  refine .lost (.inl ?_) (sound.own other shown)
  rw [nesting]
  exact List.mem_append_left _ (List.mem_map_of_mem member)

theorem close
    (accounted : Accounted table tokens builder ⟨root, inner ++ trace :: outer⟩)
    (closes : Grammar.Closes token trace.block.name)
    (distinct : ∀ other ∈ inner, other.block.name ≠ token.lexeme)
    (nodes : after.nodes = builder.nodes) (blocks : after.blocks = outer.map Trace.block)
    (extended : after.diagnostics.toList =
      builder.diagnostics.toList ++ (inner.map Trace.block).map OpenBlock.unclosed) :
    Accounted table (tokens ++ [token]) (after.push (trace.block.close token.trim))
      (Trail.push ⟨root, outer⟩ (trace.block.close token.trim) (trace.shown ++ [token])) := by
  have nesting := of_leave accounted closes distinct
  have sound := accounted.sound.append [token]
  have traceSound := sound.traces trace (by simp)
  have extended' := extended
  rw [← Builder.push_diagnostics after (trace.block.close token.trim)] at extended'
  refine ⟨?_, ?_, ?_, ?_, ?_⟩
  · refine (sound_outer sound nodes blocks).push ?_ ?_
    · rw [OpenBlock.marks_close, List.map_append, List.map_append, traceSound.marks,
        List.map_singleton, List.map_singleton, closes.mark?_eq]
    · intro shown member around aroundMember
      rcases List.mem_append.mp member with earlier | last
      · have within := (List.pairwise_append.mp sound.enclosed).2.1
        exact (List.pairwise_cons.mp within).1 around aroundMember shown earlier
      · rw [List.mem_singleton.mp last]
        refine belongs_last ?_ (.inl ?_)
        · rw [accounted.opened]
          exact List.mem_map_of_mem
            (List.mem_append_right _ (List.mem_cons_of_mem trace aroundMember))
        · rw [nesting]
          exact List.mem_map_of_mem aroundMember
  · rw [nesting]
    cases outer <;> rfl
  · rw [Trail.all_push, ← List.append_assoc]
    have within := Trail.shown_sublist_append root inner (trace :: outer)
    exact (within.trans accounted.sublist).append_right [token]
  · rw [nesting]
    exact fun opening member => notes_of_dropped accounted extended' member
  · intro other member
    rw [Trail.all_push]
    rcases List.mem_append.mp member with earlier | last
    · rcases accounted.covered other earlier with shown | explained
      -- What the closed block shows goes into its node; what the dropped ones show is lost.
      · rcases shown_cases shown with around | inside | ⟨dropped, droppedMember, inside⟩
        · exact .inl (List.mem_append_left _ around)
        · exact .inl (List.mem_append_right _ (List.mem_append_left _ inside))
        · exact .inr (explained_of_dropped accounted nesting droppedMember inside)
      · exact .inr (explained.next extended' token)
    · exact .inl (List.mem_append_right _ (List.mem_append_right _ last))

private theorem discard
    (accounted : Accounted table tokens builder ⟨root, inner ++ trace :: outer⟩)
    (closes : Grammar.Closes token trace.block.name)
    (distinct : ∀ other ∈ inner, other.block.name ≠ token.lexeme)
    (unkept : trace.block.kept = false)
    (nodes : after.nodes = builder.nodes) (blocks : after.blocks = outer.map Trace.block)
    (extended : after.diagnostics.toList =
      builder.diagnostics.toList ++ (inner.map Trace.block).map OpenBlock.unclosed) :
    Accounted table (tokens ++ [token]) after ⟨root, outer⟩ := by
  have nesting := of_leave accounted closes distinct
  have sound := accounted.sound.append [token]
  have traceSound := sound.traces trace (by simp)
  have misplaced := traceSound.misplaced unkept
  refine ⟨sound_outer sound nodes blocks, ?_, ?_, ?_, ?_⟩
  · rw [nesting]
  · have around := Trail.shown_sublist_append root (inner ++ [trace]) outer
    rw [List.append_assoc, List.singleton_append] at around
    exact (around.trans accounted.sublist).trans (List.sublist_append_left tokens [token])
  · rw [nesting]
    exact fun opening member => notes_of_dropped accounted extended member
  · intro other member
    rcases List.mem_append.mp member with earlier | last
    · rcases accounted.covered other earlier with shown | explained
      · rcases shown_cases shown with around | inside | ⟨dropped, droppedMember, inside⟩
        · exact .inl around
        · exact .inr (.lost (.inr misplaced) (traceSound.own other inside))
        · exact .inr (explained_of_dropped accounted nesting droppedMember inside)
      · exact .inr (explained.next extended token)
    · rw [List.mem_singleton.mp last]
      refine .inr (.lost (.inr misplaced) (.inr (belongs_last ?_ (.inr ?_))))
      · rw [accounted.opened]
        exact List.mem_map_of_mem (List.mem_append_right _ List.mem_cons_self)
      · rw [nesting]
        exact List.mem_cons_self

end Closing

theorem leave
    (accounted : Accounted table tokens builder trail) {inner outer : List OpenBlock}
    {block : OpenBlock} (closes : Grammar.Closes token block.name)
    (blocks : builder.blocks = inner ++ block :: outer)
    (distinct : ∀ other ∈ inner, other.name ≠ token.lexeme) :
    ∃ next, Accounted table (tokens ++ [token])
      (Builder.leave builder inner block outer token.trim) next := by
  obtain ⟨root, traces⟩ := trail
  have same := accounted.sound.blocks
  rw [blocks] at same
  obtain ⟨innerTraces, rest, rfl, rfl, restBlocks⟩ := List.append_eq_map_iff.mp same
  obtain ⟨trace, outerTraces, rfl, rfl, rfl⟩ := List.map_eq_cons_iff.mp restBlocks
  have apart : ∀ other ∈ innerTraces, other.block.name ≠ token.lexeme := fun other member =>
    distinct other.block (List.mem_map_of_mem member)
  have extended :
      (builder.diagnostics ++ (innerTraces.map Trace.block).map OpenBlock.unclosed).toList =
        builder.diagnostics.toList ++ (innerTraces.map Trace.block).map OpenBlock.unclosed :=
    Array.toList_appendList
  by_cases kept : trace.block.kept = true
  · rw [Builder.leave, if_pos kept]
    exact ⟨_, accounted.close closes apart rfl rfl extended⟩
  · rw [Builder.leave, if_neg kept]
    exact ⟨_, accounted.discard closes apart (Bool.eq_false_iff.mpr kept) rfl rfl extended⟩

end Accounted

private theorem Token.kind_of_leaf?
    {token : Token} {node : Node} (reads : token.leaf? = some node) :
    token.kind ≠ .blockOpen ∧ token.kind ≠ .blockClose := by
  refine ⟨fun kind => ?_, fun kind => ?_⟩
  · simp [leaf?, kind] at reads
  · simp [leaf?, kind] at reads

theorem Builder.Step.accounted
    {table : BlockTable} {tokens : List Token} {builder after : Builder} {token : Token}
    {trail : Trail} (step : Builder.Step table builder token after)
    (inside : token.kind ≠ .endOfSource) (accounted : Accounted table tokens builder trail) :
    ∃ next, Accounted table (tokens ++ [token]) after next := by
  cases step with
  -- Each case but one leaves the nesting as the builder leaves its blocks. A refused closing tag
  -- might close a block of an empty name, but there is none.
  | pass reason =>
      have lexical : token.diagnostic?.isSome = true := reason.resolve_left inside
      have noBlock : token.kind ≠ .blockOpen ∧ token.kind ≠ .blockClose := by
        refine ⟨fun kind => ?_, fun kind => ?_⟩
        · simp [Token.diagnostic?, kind, Token.Kind.fault?] at lexical
        · simp [Token.diagnostic?, kind, Token.Kind.fault?] at lexical
      exact ⟨trail, accounted.stay rfl rfl (List.append_nil _).symm
        (step_eq_self (fun kind => absurd kind noBlock.1) (fun kind => absurd kind noBlock.2))
        (.lexical lexical)⟩
  | refuse faults _ some _ noOpening noClosing =>
      refine ⟨trail, accounted.stay rfl rfl (Builder.report_diagnostics builder token.span faults)
        (step_eq_self noOpening ?_) (.noted (builder.notes_report token some))⟩
      intro kind opening member same
      rw [accounted.opened] at member
      obtain ⟨trace, traceMember, rfl⟩ := List.mem_map.mp member
      have named := (accounted.sound.traces trace traceMember).named
      have blockMember : trace.block ∈ builder.blocks := by
        rw [accounted.sound.blocks]
        exact List.mem_map_of_mem traceMember
      have word : trace.block.name ∈ trace.opening.words := List.mem_of_head? named
      rw [named] at same
      have empty := noClosing kind trace.block blockMember (Option.some.inj same)
      rw [← Option.some.inj same] at empty
      exact Builder.words_ne_empty word empty
  | add node faults reads =>
      have noBlock := Token.kind_of_leaf? reads
      have same : (of tokens).step token = of tokens :=
        step_eq_self (fun kind => absurd kind noBlock.1) (fun kind => absurd kind noBlock.2)
      have marks : node.marks.map some = [token.mark?] := by
        rw [Token.marks_of_leaf? reads, Token.mark?_of_leaf? reads, List.map_singleton]
      have extended := Builder.report_diagnostics builder token.span faults
      have reported : (builder.report token.span faults).nodes = builder.nodes := rfl
      exact ⟨_, accounted.add reported rfl extended same marks⟩
  | enter helper arguments kind words => exact ⟨_, accounted.enter kind words⟩
  | turn block outer divides blocks whole => exact accounted.turn divides blocks whole
  | leave inner block outer closes _ blocks distinct =>
      exact accounted.leave closes blocks distinct

/-- Every run accounts for all its tokens. -/
theorem Builder.exists_accounted_run
    (table : BlockTable) {tokens : List Token}
    (inside : ∀ token ∈ tokens, token.kind ≠ .endOfSource) :
    ∃ trail, Accounted table tokens (run table tokens) trail := by
  induction tokens using List.reverseRecOn with
  | nil =>
      refine ⟨⟨[], []⟩, ⟨rfl, rfl, fun _ member => ?_, .nil⟩, rfl, .refl [], fun _ member => ?_,
        fun _ member => ?_⟩
      · exact absurd member List.not_mem_nil
      · exact absurd member List.not_mem_nil
      · exact absurd member List.not_mem_nil
  | append_singleton tokens token inductionHypothesis =>
      obtain ⟨trail, accounted⟩ := inductionHypothesis fun other member =>
        inside other (List.mem_append_left _ member)
      rw [run_append_singleton]
      exact (step_spec table _ token).accounted (inside token List.mem_concat_self) accounted

theorem Builder.length_blocks_run
    {table : BlockTable} {tokens : List Token}
    (inside : ∀ token ∈ tokens, token.kind ≠ .endOfSource) :
    (run table tokens).blocks.length = (of tokens).opened.length := by
  obtain ⟨trail, accounted⟩ := exists_accounted_run table inside
  rw [accounted.sound.blocks, accounted.opened, List.length_map, List.length_map]

end Stencil
