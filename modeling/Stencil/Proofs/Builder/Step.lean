import Mathlib.Data.List.TakeWhile
import Stencil.Proofs.Grammar
import Stencil.Proofs.Token.Content

/-!
What one token can do to a builder, said once. Each proof about runs of the builder goes through
the cases below and leaves the functions of the builder folded.
-/

namespace Stencil

/-- Whether a fault is one of cutting a source into tokens, which the builder never reports. -/
def Fault.isLexical : Fault → Bool
  | .unterminatedTag | .unterminatedComment => true
  | _ => false

def Fault.ofClosing (fault : Fault) : Bool :=
  fault.kind = .emptyTag ∨ fault.kind = .mismatchedClose ∨ fault.kind = .unexpectedClose

namespace Builder

/-! ## Opening a block -/

/-- The faults of a tag that opens a block within `depth` others. -/
def entryFaults (table : BlockTable) (depth : Nat) (token : Token) (helper : String)
    (arguments : List String) : List Fault :=
  surplus token 1 arguments ++
    (if (table.rule? helper).isNone then [.unknownBlock helper] else []) ++
    (if depth = maxBlockDepth then [.nestingTooDeep] else []) ++
    (blockArgument (table.rule? helper) helper arguments).2

def entry (table : BlockTable) (depth : Nat) (token : Token) (helper : String)
    (arguments : List String) : OpenBlock where
  kept := (table.rule? helper).isSome && depth < maxBlockDepth
  tags := ⟨helper, Token.argument arguments, token.trim, .unmarked, .unmarked, token.span⟩
  body := #[]
  inverse := none

def enter (table : BlockTable) (builder : Builder) (token : Token) (helper : String)
    (arguments : List String) : Builder :=
  let depth := builder.blocks.length
  { builder.report token.span (entryFaults table depth token helper arguments) with
    blocks := entry table depth token helper arguments :: builder.blocks }

def leave (builder : Builder) (inner : List OpenBlock) (block : OpenBlock)
    (outer : List OpenBlock) (trim : Trim) : Builder :=
  let builder : Builder :=
    { builder with
      blocks := outer
      diagnostics := builder.diagnostics ++ inner.map OpenBlock.unclosed }
  if block.kept then builder.push (block.close trim) else builder

theorem readPath_eq (text : String) :
    readPath text =
      match Path.read text with
      | .ok path => .ok path
      | .error flaw => .error (.invalidPath text flaw) := by
  unfold readPath
  cases Path.read text <;> rfl

private theorem blockArgument_fst
    (rule : Option ArgumentRule) (helper : String) (arguments : List String) :
    (blockArgument rule helper arguments).1 = Token.argument arguments := by
  cases arguments with
  | nil => rfl
  | cons word rest =>
      simp only [blockArgument, Token.argument, readPath_eq]
      cases Path.read word <;> rfl

theorem openBlock_eq_enter
    {table : BlockTable} {builder : Builder} {token : Token} {helper : String}
    {arguments : List String} (words : token.words = helper :: arguments) :
    openBlock table builder token = enter table builder token helper arguments := by
  have argument := blockArgument_fst (table.rule? helper) helper arguments
  simp only [openBlock, words, enter, entry, entryFaults, argument]
  rfl

private theorem surplus_isLexical
    {token : Token} {most : Nat} {arguments : List String} {fault : Fault}
    (member : fault ∈ surplus token most arguments) :
    fault.isLexical = false := by
  unfold surplus at member
  split at member
  · rw [List.mem_singleton.mp member]
    rfl
  · exact absurd member List.not_mem_nil

private theorem blockArgument_isLexical
    {rule : Option ArgumentRule} {helper : String} {arguments : List String} {fault : Fault}
    (member : fault ∈ (blockArgument rule helper arguments).2) :
    fault.isLexical = false := by
  cases arguments with
  | nil =>
      simp only [blockArgument] at member
      split at member
      · rw [List.mem_singleton.mp member]
        rfl
      · exact absurd member List.not_mem_nil
  | cons word rest =>
      simp only [blockArgument, readPath_eq] at member
      cases read : Path.read word with
      | ok path =>
          rw [read] at member
          exact absurd member List.not_mem_nil
      | error flaw =>
          rw [read] at member
          rw [List.mem_singleton.mp member]
          rfl

theorem entryFaults_isLexical
    {table : BlockTable} {depth : Nat} {token : Token} {helper : String}
    {arguments : List String} {fault : Fault}
    (member : fault ∈ entryFaults table depth token helper arguments) :
    fault.isLexical = false := by
  simp only [entryFaults, List.mem_append] at member
  rcases member with ((member | member) | member) | member
  · exact surplus_isLexical member
  · split at member
    · rw [List.mem_singleton.mp member]
      rfl
    · exact absurd member List.not_mem_nil
  · split at member
    · rw [List.mem_singleton.mp member]
      rfl
    · exact absurd member List.not_mem_nil
  · exact blockArgument_isLexical member

theorem opens_of_entryFaults_eq_nil
    {table : BlockTable} {depth : Nat} {token : Token} {helper : String}
    {arguments : List String} (kind : token.kind = .blockOpen)
    (words : token.words = helper :: arguments)
    (faultless : entryFaults table depth token helper arguments = []) :
    Grammar.Opens table token helper (Token.argument arguments) ∧
      (table.rule? helper).isSome = true ∧ depth ≠ maxBlockDepth := by
  simp only [entryFaults, List.append_eq_nil_iff] at faultless
  obtain ⟨⟨⟨noSurplus, known⟩, shallow⟩, argumentRead⟩ := faultless
  have isSome : (table.rule? helper).isSome = true := by
    cases rule : table.rule? helper with
    | none => simp [rule] at known
    | some _ => rfl
  have notDeep : depth ≠ maxBlockDepth := by
    intro deep
    simp [deep] at shallow
  refine ⟨?_, isSome, notDeep⟩
  cases arguments with
  | nil =>
      refine .bare kind words ?_
      cases rule : table.rule? helper with
      | none => simp [rule] at isSome
      | some argumentRule =>
          cases argumentRule with
          | required => simp [blockArgument, rule] at argumentRead
          | optional => rfl
  | cons word rest =>
      have alone : rest = [] := by
        cases rest with
        | nil => rfl
        | cons _ _ => simp [surplus] at noSurplus
      subst alone
      cases read : Path.read word with
      | error flaw => simp [blockArgument, readPath_eq, read] at argumentRead
      | ok path =>
          have same : Token.argument [word] = path := by
            simp [Token.argument, read, Except.toOption]
          rw [same]
          exact .argument kind words isSome read

/-! ## Steps -/

/-- What a token can do to a builder: nothing, to be refused with a report, to add a leaf, to
open a block, to start the inverse section of the innermost block, or to close a block. -/
inductive Step (table : BlockTable) (builder : Builder) (token : Token) : Builder → Prop
  | pass :
      (token.kind = .endOfSource ∨ token.diagnostic?.isSome = true) →
      Step table builder token builder
  | refuse (faults : List Fault) :
      token.kind.isTag = true →
      faults ≠ [] →
      (∀ fault ∈ faults, fault.isLexical = false) →
      (token.kind = .blockOpen → token.words = []) →
      (token.kind = .blockClose →
        ∀ block ∈ builder.blocks, block.name = token.lexeme → token.lexeme = "") →
      Step table builder token (builder.report token.span faults)
  | add (node : Node) (faults : List Fault) :
      token.leaf? = some node →
      (faults ≠ [] → token.kind.isTag = true) →
      (∀ fault ∈ faults, fault.isLexical = false) →
      (faults = [] → Grammar.Leaf token node) →
      Step table builder token ((builder.report token.span faults).push node)
  | enter (helper : String) (arguments : List String) :
      token.kind = .blockOpen →
      token.words = helper :: arguments →
      Step table builder token (enter table builder token helper arguments)
  | turn (block : OpenBlock) (outer : List OpenBlock) :
      Grammar.Divides token →
      builder.blocks = block :: outer →
      block.inverse = none →
      Step table builder token { builder with blocks := block.invert token.trim :: outer }
  | leave (inner : List OpenBlock) (block : OpenBlock) (outer : List OpenBlock) :
      Grammar.Closes token block.name →
      token.lexeme ≠ "" →
      builder.blocks = inner ++ block :: outer →
      (∀ other ∈ inner, other.name ≠ token.lexeme) →
      Step table builder token (leave builder inner block outer token.trim)

theorem report_nil (builder : Builder) (span : Span) :
    builder.report span [] = builder := by
  simp [report]

theorem report_report (builder : Builder) (span : Span) (first second : List Fault) :
    (builder.report span first).report span second = builder.report span (first ++ second) := by
  simp only [report, List.map_append, mk.injEq, true_and]
  apply Array.ext'
  simp only [Array.toList_appendList, List.append_assoc]

theorem Step.leaf
    {table : BlockTable} {builder : Builder} {token : Token} {node : Node}
    (leaf : Grammar.Leaf token node) :
    Step table builder token (builder.push node) := by
  have step : Step table builder token ((builder.report token.span []).push node) :=
    .add node [] leaf.leaf?_eq (fun some => absurd rfl some) (by simp) (fun _ => leaf)
  rwa [report_nil] at step

theorem words_ne_empty
    {token : Token} {word : String} (member : word ∈ token.words) :
    word ≠ "" := by
  simp only [Token.words, Text.words, List.mem_map, List.mem_filter] at member
  obtain ⟨piece, ⟨_, solid⟩, rfl⟩ := member
  intro empty
  have nil : piece = [] := by
    rw [← String.toList_ofList (l := piece), empty]
    rfl
  simp [nil] at solid

private theorem split_of_dropWhile
    {α : Type} {test : α → Bool} {items rest : List α} {item : α}
    (dropped : items.dropWhile test = item :: rest) :
    items = items.takeWhile test ++ item :: rest ∧ test item = false := by
  refine ⟨?_, ?_⟩
  · rw [← dropped, List.takeWhile_append_dropWhile]
  · induction items with
    | nil => exact absurd dropped (by simp)
    | cons first others inductionHypothesis =>
        rw [List.dropWhile_cons] at dropped
        split at dropped
        · exact inductionHypothesis dropped
        · rename_i fails
          rw [← (List.cons.inj dropped).1]
          exact Bool.eq_false_iff.mpr fails

private theorem step_expression
    (table : BlockTable) (builder : Builder) {token : Token} {escaped : Bool}
    (kind : token.kind = if escaped then .escaped else .raw) :
    Step table builder token (builder.expression token escaped) := by
  have tag : token.kind.isTag = true := by
    rw [kind]
    cases escaped <;> rfl
  have noOpen : token.kind = .blockOpen → token.words = [] := by
    intro same
    rw [kind] at same
    cases escaped <;> exact absurd same (by decide)
  have noClose : token.kind = .blockClose →
      ∀ block ∈ builder.blocks, block.name = token.lexeme → token.lexeme = "" := by
    intro same
    rw [kind] at same
    cases escaped <;> exact absurd same (by decide)
  unfold expression
  split
  · exact .refuse _ tag (by simp) (by simp [Fault.isLexical]) noOpen noClose
  · rename_i word words
    rw [readPath_eq]
    cases read : Path.read word with
    | ok path =>
        have leaf : Grammar.Leaf token (.expression path escaped token.trim token.span) := by
          cases escaped with
          | true => exact .escaped kind words read
          | false => exact .raw kind words read
        exact .leaf leaf
    | error flaw =>
        exact .refuse _ tag (by simp) (by simp [Fault.isLexical]) noOpen noClose
  · rename_i first arguments several words
    refine .refuse _ tag ?_ (fun _ member => surplus_isLexical member) noOpen noClose
    cases arguments with
    | nil => exact absurd rfl several
    | cons _ _ => simp [surplus]

private theorem step_callPartial
    (table : BlockTable) (builder : Builder) {token : Token}
    (kind : token.kind = .partialTag) :
    Step table builder token (builder.callPartial token) := by
  have tag : token.kind.isTag = true := by
    rw [kind]
    rfl
  have noOpen : token.kind = .blockOpen → token.words = [] := by
    simp [kind]
  have noClose : token.kind = .blockClose →
      ∀ block ∈ builder.blocks, block.name = token.lexeme → token.lexeme = "" := by
    simp [kind]
  unfold callPartial
  split
  · exact .refuse _ tag (by simp) (by simp [Fault.isLexical]) noOpen noClose
  · rename_i name arguments words
    cases arguments with
    | nil =>
        have leaf : Grammar.Leaf token (.partialTag name none token.trim token.span) :=
          .partialTag kind words
        exact .add _ _ leaf.leaf?_eq (fun _ => tag)
          (fun _ member => surplus_isLexical member) (fun _ => leaf)
    | cons word rest =>
        simp only [readPath_eq]
        cases read : Path.read word with
        | ok path =>
            have reads : token.leaf? =
                some (.partialTag name (some path) token.trim token.span) := by
              simp [Token.leaf?, kind, words, read, Except.toOption]
            refine .add _ _ reads (fun _ => tag)
              (fun _ member => surplus_isLexical member) ?_
            intro faultless
            have alone : rest = [] := by
              cases rest with
              | nil => rfl
              | cons _ _ => simp [surplus] at faultless
            subst alone
            exact .scopedPartialTag kind words read
        | error flaw =>
            simp only [report_report]
            refine .refuse _ tag (by simp) ?_ noOpen noClose
            intro fault member
            rcases List.mem_append.mp member with member | member
            · exact surplus_isLexical member
            · rw [List.mem_singleton.mp member]
              rfl

private theorem step_openBlock
    (table : BlockTable) (builder : Builder) {token : Token}
    (kind : token.kind = .blockOpen) :
    Step table builder token (openBlock table builder token) := by
  cases words : token.words with
  | nil =>
      have refused :
          openBlock table builder token = builder.report token.span [.emptyBlockOpen] := by
        simp only [openBlock, words]
      rw [refused]
      exact .refuse _ (by rw [kind]; rfl) (by simp) (by simp [Fault.isLexical])
        (fun _ => words) (by simp [kind])
  | cons helper arguments =>
      rw [openBlock_eq_enter words]
      exact .enter helper arguments kind words

private theorem step_invert
    (table : BlockTable) (builder : Builder) {token : Token}
    (kind : token.kind = .elseTag) :
    Step table builder token (builder.invert token) := by
  have refused (fault : Fault) (own : fault.isLexical = false) :
      Step table builder token (builder.report token.span [fault]) :=
    .refuse _ (by rw [kind]; rfl) (by simp) (by simp [own]) (by simp [kind]) (by simp [kind])
  unfold invert
  split
  · rename_i empty
    split
    · exact refused _ rfl
    · rename_i block outer blocks
      split
      · exact refused _ rfl
      · rename_i first
        refine .turn block outer ⟨kind, String.isEmpty_iff.mp empty⟩ blocks ?_
        simpa using first
  · exact refused _ rfl

/-- A closing tag is refused with one fault, or closes the innermost block of its name. -/
theorem closeBlock_cases (builder : Builder) (token : Token) :
    (∃ fault : Fault, fault.ofClosing = true ∧
      builder.closeBlock token = builder.report token.span [fault] ∧
      ∀ block ∈ builder.blocks, block.name = token.lexeme → token.lexeme = "") ∨
    ∃ inner block outer,
      builder.blocks = inner ++ block :: outer ∧ block.name = token.lexeme ∧
        (∀ other ∈ inner, other.name ≠ token.lexeme) ∧ token.lexeme ≠ "" ∧
        builder.closeBlock token = leave builder inner block outer token.trim := by
  unfold closeBlock
  split
  · rename_i empty
    refine .inl ⟨_, rfl, rfl, ?_⟩
    exact fun _ _ _ => String.isEmpty_iff.mp empty
  · rename_i named
    split
    · rename_i none
      have unmatched :
          ∀ block ∈ builder.blocks, block.name = token.lexeme → token.lexeme = "" := by
        intro block member same
        have differs := List.dropWhile_eq_nil_iff.mp none block member
        exact absurd same (bne_iff_ne.mp differs)
      split
      · exact .inl ⟨_, rfl, rfl, unmatched⟩
      · exact .inl ⟨_, rfl, rfl, unmatched⟩
    · rename_i block outer found
      obtain ⟨blocks, fails⟩ := split_of_dropWhile found
      refine .inr ⟨_, block, outer, blocks, by simpa using fails, ?_, ?_, rfl⟩
      · intro other member
        have differs := List.mem_takeWhile_imp member
        exact bne_iff_ne.mp differs
      · intro empty
        exact named (String.isEmpty_iff.mpr empty)

private theorem step_closeBlock
    (table : BlockTable) (builder : Builder) {token : Token}
    (kind : token.kind = .blockClose) :
    Step table builder token (builder.closeBlock token) := by
  rcases closeBlock_cases builder token with
    ⟨fault, closing, refused, unmatched⟩ | ⟨inner, block, outer, blocks, same, distinct, named, left⟩
  · have own : fault.isLexical = false := by
      cases fault <;> first | rfl | exact Bool.noConfusion closing
    rw [refused]
    exact .refuse _ (by rw [kind]; rfl) (by simp) (by simp [own]) (by simp [kind])
      (fun _ => unmatched)
  · rw [left]
    exact .leave inner block outer ⟨kind, same.symm⟩ named blocks distinct

theorem step_spec (table : BlockTable) (builder : Builder) (token : Token) :
    Step table builder token (step table builder token) := by
  unfold step
  split
  · rename_i kind
    exact .leaf (.text kind)
  · rename_i kind
    exact .leaf (.comment kind)
  · rename_i kind
    exact step_expression table builder kind
  · rename_i kind
    exact step_expression table builder kind
  · rename_i kind
    exact step_openBlock table builder kind
  · rename_i kind
    exact step_invert table builder kind
  · rename_i kind
    exact step_closeBlock table builder kind
  · rename_i kind
    exact step_callPartial table builder kind
  · rename_i kind
    exact .pass (.inr (by simp [Token.diagnostic?, kind, Token.Kind.fault?]))
  · rename_i kind
    exact .pass (.inr (by simp [Token.diagnostic?, kind, Token.Kind.fault?]))
  · rename_i kind
    exact .pass (.inl kind)

end Builder

end Stencil
