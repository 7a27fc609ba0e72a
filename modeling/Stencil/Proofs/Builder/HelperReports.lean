import Stencil.Proofs.Builder.Run
import Stencil.Proofs.Diagnostic.Sort
import Stencil.Proofs.Token.Place

/-!
What is reported about the helpers of blocks. Each tag is judged by its words and the rules of
the block table alone: by nothing that stands before it, around it or within its block.
-/

namespace Stencil

def Fault.ofHelper (fault : Fault) : Bool :=
  fault.kind = .unknownBlock ∨ fault.kind = .missingArgument

def Diagnostic.ofHelper (diagnostic : Diagnostic) : Bool :=
  diagnostic.fault.ofHelper

namespace Token

/-- The faults of a tag that are about helpers, under rules on their arguments. An inverted
section counts as a block without a helper. -/
def helperFaults (rule? : String → Option ArgumentRule) (token : Token) : List Fault :=
  match token.kind, token.words with
  | .blockOpen, name :: arguments =>
      match rule? name with
      | none => [.unknownBlock name]
      | some .required => if arguments = [] then [.missingArgument name] else []
      | some .optional => []
  | .elseTag, _ => if token.lexeme = "" then [] else [.invertedSection token.lexeme]
  | _, _ => []

private theorem helperFaults_of_other
    {rule? : String → Option ArgumentRule} {token : Token}
    (noOpening : token.kind ≠ .blockOpen) (noElse : token.kind ≠ .elseTag) :
    token.helperFaults rule? = [] := by
  unfold helperFaults
  split
  · exact absurd ‹_› noOpening
  · exact absurd ‹_› noElse
  · rfl

def helperReports (rule? : String → Option ArgumentRule) (token : Token) : List Diagnostic :=
  (token.helperFaults rule?).map fun fault => ⟨fault, token.span⟩

end Token

namespace Builder

def helperReports (builder : Builder) : List Diagnostic :=
  builder.diagnostics.toList.filter Diagnostic.ofHelper

@[simp] theorem helperReports_push (builder : Builder) (node : Node) :
    (builder.push node).helperReports = builder.helperReports := by
  rw [helperReports, push_diagnostics, helperReports]

private theorem helperReports_report (builder : Builder) (span : Span) (faults : List Fault) :
    (builder.report span faults).helperReports =
      builder.helperReports ++
        (faults.filter Fault.ofHelper).map fun fault => ⟨fault, span⟩ := by
  rw [helperReports, report_diagnostics, List.filter_append, List.filter_map]
  rfl

private theorem helperReports_report_of_other
    (builder : Builder) (span : Span) {faults : List Fault}
    (other : faults.filter Fault.ofHelper = []) :
    (builder.report span faults).helperReports = builder.helperReports := by
  rw [helperReports_report, other, List.map_nil, List.append_nil]

private theorem filter_surplus (token : Token) (most : Nat) (arguments : List String) :
    (surplus token most arguments).filter Fault.ofHelper = [] := by
  unfold surplus
  split <;> rfl

private theorem filter_unclosed (blocks : List OpenBlock) :
    (blocks.map OpenBlock.unclosed).filter Diagnostic.ofHelper = [] := by
  rw [List.filter_eq_nil_iff]
  intro diagnostic member
  obtain ⟨block, _, rfl⟩ := List.mem_map.mp member
  exact Bool.false_ne_true

private theorem filter_of_readPath
    {text : String} {fault : Fault} (read : readPath text = .error fault) :
    [fault].filter Fault.ofHelper = [] := by
  rw [readPath_eq] at read
  split at read
  · exact nomatch read
  · rw [← Except.error.inj read]
    rfl

private theorem filter_blockArgument
    (rule : Option ArgumentRule) (name : String) (arguments : List String) :
    (blockArgument rule name arguments).2.filter Fault.ofHelper =
      if rule = some .required ∧ arguments = [] then [.missingArgument name] else [] := by
  cases arguments with
  | nil =>
      rw [blockArgument]
      by_cases required : rule = some .required
      · rw [if_pos required, if_pos ⟨required, rfl⟩]
        rfl
      · rw [if_neg required, if_neg fun both => required both.1]
        rfl
  | cons argument others =>
      rw [blockArgument, if_neg fun both => List.cons_ne_nil _ _ both.2]
      cases read : readPath argument with
      | ok path => rfl
      | error fault => exact filter_of_readPath read

private theorem filter_entryFaults
    (table : BlockTable) (depth : Nat) {token : Token} {name : String}
    {arguments : List String} (kind : token.kind = .blockOpen)
    (words : token.words = name :: arguments) :
    (entryFaults table depth token name arguments).filter Fault.ofHelper =
      token.helperFaults table.rule? := by
  have deep : (if depth = maxBlockDepth then [Fault.nestingTooDeep] else []).filter
      Fault.ofHelper = [] := by
    split <;> rfl
  unfold entryFaults
  rw [List.filter_append, List.filter_append, List.filter_append, filter_surplus, deep,
    filter_blockArgument, Token.helperFaults, kind, words, List.nil_append, List.append_nil]
  dsimp only
  cases table.rule? name with
  | none => simp [Fault.ofHelper, Fault.kind]
  | some rule => cases rule <;> simp

section Step

variable (table : BlockTable) (builder : Builder) (token : Token)

private theorem helperReports_expression (escaped : Bool) :
    (builder.expression token escaped).helperReports = builder.helperReports := by
  unfold expression
  split
  · exact helperReports_report_of_other builder token.span rfl
  · split
    · exact helperReports_push builder _
    · rename_i fault read
      exact helperReports_report_of_other builder token.span (filter_of_readPath read)
  · exact helperReports_report_of_other builder token.span (filter_surplus token _ _)

private theorem helperReports_callPartial :
    (builder.callPartial token).helperReports = builder.helperReports := by
  unfold callPartial
  split
  · exact helperReports_report_of_other builder token.span rfl
  · rename_i name arguments _
    have noted := helperReports_report_of_other builder token.span
      (filter_surplus token 1 arguments)
    dsimp only
    split
    · rw [helperReports_push, noted]
    · split
      · rw [helperReports_push, noted]
      · rename_i fault read
        rw [helperReports_report_of_other _ _ (filter_of_readPath read), noted]

private theorem helperReports_openBlock (kind : token.kind = .blockOpen) :
    (openBlock table builder token).helperReports =
      builder.helperReports ++ token.helperReports table.rule? := by
  cases words : token.words with
  | nil =>
      rw [openBlock, words, Token.helperReports, Token.helperFaults, kind, words]
      dsimp only
      rw [helperReports_report]
      rfl
  | cons name arguments =>
      -- How deep the block lies adds a fault of another kind at most.
      rw [openBlock_eq_enter words, helperReports, enter_diagnostics, List.filter_append,
        List.filter_map, Token.helperReports, ← filter_entryFaults table _ kind words]
      rfl

private theorem helperReports_invert (kind : token.kind = .elseTag) :
    (builder.invert token).helperReports =
      builder.helperReports ++ token.helperReports table.rule? := by
  rw [Token.helperReports, Token.helperFaults, kind]
  dsimp only
  unfold invert
  by_cases plain : token.lexeme = ""
  · rw [if_pos (String.isEmpty_iff.mpr plain), if_pos plain, List.map_nil, List.append_nil]
    split
    · exact helperReports_report_of_other builder token.span rfl
    · split
      · exact helperReports_report_of_other builder token.span rfl
      · rfl
  · rw [if_neg (mt String.isEmpty_iff.mp plain), if_neg plain]
    exact helperReports_report builder token.span _

private theorem helperReports_closeBlock :
    (builder.closeBlock token).helperReports = builder.helperReports := by
  unfold closeBlock
  split
  · exact helperReports_report_of_other builder token.span rfl
  · split
    · split
      · exact helperReports_report_of_other builder token.span rfl
      · exact helperReports_report_of_other builder token.span rfl
    · rename_i block outer _
      have closed := leave_diagnostics builder
        (builder.blocks.takeWhile fun block => block.name != token.lexeme) block outer token.trim
      rw [leave] at closed
      rw [helperReports, closed, List.filter_append, filter_unclosed, List.append_nil]
      rfl

private theorem helperReports_step_of_other
    (noOpening : token.kind ≠ .blockOpen) (noElse : token.kind ≠ .elseTag) :
    (step table builder token).helperReports = builder.helperReports := by
  unfold step
  split
  case h_1 => exact helperReports_push builder _
  case h_2 => exact helperReports_push builder _
  case h_3 => exact helperReports_expression builder token true
  case h_4 => exact helperReports_expression builder token false
  case h_5 kind => exact absurd kind noOpening
  case h_6 kind => exact absurd kind noElse
  case h_7 => exact helperReports_closeBlock builder token
  case h_8 => exact helperReports_callPartial builder token
  all_goals rfl

/-- A step reports what its tag calls for, whatever the builder is like. -/
theorem helperReports_step :
    (step table builder token).helperReports =
      builder.helperReports ++ token.helperReports table.rule? := by
  by_cases opening : token.kind = .blockOpen
  · rw [step, opening]
    exact helperReports_openBlock table builder token opening
  by_cases middle : token.kind = .elseTag
  · rw [step, middle]
    exact helperReports_invert table builder token middle
  · rw [helperReports_step_of_other table builder token opening middle, Token.helperReports,
      Token.helperFaults_of_other opening middle, List.map_nil, List.append_nil]

end Step

private theorem helperReports_foldl (table : BlockTable) (builder : Builder) (tokens : List Token) :
    (tokens.foldl (step table) builder).helperReports =
      builder.helperReports ++ tokens.flatMap (Token.helperReports table.rule?) := by
  induction tokens generalizing builder with
  | nil => exact (List.append_nil _).symm
  | cons token rest inductionHypothesis =>
      rw [List.foldl_cons, inductionHypothesis, helperReports_step, List.flatMap_cons,
        List.append_assoc]

private theorem helperReports_run (table : BlockTable) (tokens : List Token) :
    (run table tokens).finish.filter Diagnostic.ofHelper =
      tokens.flatMap (Token.helperReports table.rule?) := by
  rw [finish, List.filter_append, filter_unclosed, List.append_nil]
  exact helperReports_foldl table empty tokens

end Builder

/-! ## Sources -/

namespace Token

private theorem filter_diagnostic? (tokens : List Token) :
    (tokens.filterMap diagnostic?).filter Diagnostic.ofHelper = [] := by
  rw [List.filter_eq_nil_iff]
  intro diagnostic member
  obtain ⟨token, _, reads⟩ := List.mem_filterMap.mp member
  obtain ⟨kind, lexeme, trim, span⟩ := token
  cases kind <;> simp [diagnostic?, Kind.fault?] at reads <;> subst reads <;>
    exact Bool.false_ne_true

private theorem mem_helperReports
    {rule? : String → Option ArgumentRule} {token : Token} {diagnostic : Diagnostic} :
    diagnostic ∈ token.helperReports rule? ↔
      diagnostic.fault ∈ token.helperFaults rule? ∧ diagnostic.span = token.span := by
  rw [helperReports, List.mem_map]
  constructor
  · rintro ⟨fault, member, rfl⟩
    exact ⟨member, rfl⟩
  · rintro ⟨member, span⟩
    exact ⟨diagnostic.fault, member, by rw [← span]⟩

section Tag

variable {rule? : String → Option ArgumentRule} {token : Token} {name : String}
  {arguments : List String} (kind : token.kind = .blockOpen)
  (words : token.words = name :: arguments)

include kind words

theorem exists_unknownBlock_iff :
    (∃ fault ∈ token.helperFaults rule?, fault.kind = .unknownBlock) ↔ rule? name = none := by
  rw [helperFaults, kind, words]
  dsimp only
  cases rule? name with
  | none => simp [Fault.kind]
  | some rule => cases rule <;> simp [Fault.kind]

theorem exists_missingArgument_iff :
    (∃ fault ∈ token.helperFaults rule?, fault.kind = .missingArgument) ↔
      rule? name = some .required ∧ arguments = [] := by
  rw [helperFaults, kind, words]
  dsimp only
  cases rule? name with
  | none => simp [Fault.kind]
  | some rule => cases rule <;> simp [Fault.kind]

end Tag

end Token

namespace Document

/-- Whether there is a diagnostic of a kind at the span of a token. -/
def ReportedAs (kind : Fault.Kind) (diagnostics : List Diagnostic) (token : Token) : Prop :=
  ∃ diagnostic ∈ diagnostics, diagnostic.fault.kind = kind ∧ diagnostic.span = token.span

variable (table : BlockTable) {source : String}

/-- A source has, about helpers, exactly the reports that its tags call for. -/
theorem filter_readLenient (source : String) :
    (readLenient table source).2.filter Diagnostic.ofHelper =
      Diagnostic.sortByPlace
        ((Token.content source).flatMap (Token.helperReports table.rule?)) := by
  rw [readLenient_eq]
  dsimp only
  rw [Diagnostic.filter_sortByPlace, List.filter_append, Builder.helperReports_run,
    Token.filter_diagnostic?, List.append_nil]

private theorem mem_readLenient_iff
    {diagnostic : Diagnostic} (ofHelper : diagnostic.ofHelper = true) :
    diagnostic ∈ (readLenient table source).2 ↔
      ∃ token ∈ Token.content source,
        diagnostic.fault ∈ token.helperFaults table.rule? ∧ diagnostic.span = token.span := by
  have kept : diagnostic ∈ (readLenient table source).2 ↔
      diagnostic ∈ (readLenient table source).2.filter Diagnostic.ofHelper := by
    rw [List.mem_filter, ofHelper]
    exact (and_iff_left rfl).symm
  rw [kept, filter_readLenient, (Diagnostic.perm_sortByPlace _).mem_iff, List.mem_flatMap]
  simp only [Token.mem_helperReports]

theorem reportedAs_iff
    (short : byteLength source.toList < 2 ^ 32) {token : Token}
    (member : token ∈ Token.content source) {kind : Fault.Kind}
    (ofHelper : kind = .unknownBlock ∨ kind = .missingArgument) :
    ReportedAs kind (readLenient table source).2 token ↔
      ∃ fault ∈ token.helperFaults table.rule?, fault.kind = kind := by
  have own {diagnostic : Diagnostic} (same : diagnostic.fault.kind = kind) :
      diagnostic.ofHelper = true := by
    rw [Diagnostic.ofHelper, Fault.ofHelper, same]
    exact decide_eq_true ofHelper
  constructor
  · rintro ⟨diagnostic, reported, same, span⟩
    obtain ⟨other, otherMember, faulty, otherSpan⟩ :=
      (mem_readLenient_iff table (own same)).mp reported
    obtain rfl := Token.eq_of_span_content short otherMember member (otherSpan.symm.trans span)
    exact ⟨diagnostic.fault, faulty, same⟩
  · rintro ⟨fault, faulty, same⟩
    have reported : ⟨fault, token.span⟩ ∈ (readLenient table source).2 :=
      (mem_readLenient_iff table (own same)).mpr ⟨token, member, faulty, rfl⟩
    exact ⟨_, reported, same, rfl⟩

end Document

end Stencil
