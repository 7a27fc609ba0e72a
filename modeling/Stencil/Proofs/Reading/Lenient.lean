import Stencil.Proofs.Builder.Account
import Stencil.Proofs.Reading.Strict
import Stencil.Proofs.Token.Place

/-!
Lenient reading accounts for all of a source: what is not in the document has a diagnostic, or
went away with a block that has one. The diagnostics stand at tags, in reading order.
-/

namespace Stencil

open Nesting

namespace Builder

variable {table : BlockTable} {tokens : List Token}

private theorem entryFaults_ne_nil
    {depth : Nat} {token : Token} {helper : String} {arguments : List String}
    (bad : (table.rule? helper).isNone = true ∨ depth = maxBlockDepth) :
    entryFaults table depth token helper arguments ≠ [] := by
  intro none
  simp only [entryFaults, List.append_eq_nil_iff] at none
  rcases bad with unknown | deep
  · simp [unknown] at none
  · simp [deep] at none

theorem Notes.later
    {before : List Token} {token : Token} (noted : (run table before).Notes token)
    (after : List Token) :
    (run table (before ++ after)).Notes token := by
  obtain ⟨more, extended⟩ := exists_diagnostics_foldl table (run table before) after
  rw [← run_append] at extended
  exact noted.mono extended

private theorem notes_opening
    {before after : List Token} {opening : Token} {helper : String} {arguments : List String}
    (kind : opening.kind = .blockOpen) (words : opening.words = helper :: arguments)
    (bad : (table.rule? helper).isNone = true ∨
      (run table before).blocks.length = maxBlockDepth) :
    (run table (before ++ opening :: after)).Notes opening := by
  have noted : (run table (before ++ [opening])).Notes opening := by
    rw [run_append_singleton, step, kind]
    show (openBlock table (run table before) opening).Notes opening
    rw [openBlock_eq_enter words]
    exact notes_report (run table before) opening (entryFaults_ne_nil bad)
  have later := noted.later after
  rwa [List.append_assoc, List.singleton_append] at later

/-- A misplaced block is noted or lies in another one. -/
theorem notes_or_belongs_of_misplaced
    (inside : ∀ token ∈ tokens, token.kind ≠ .endOfSource) {opening : Token}
    (misplaced : Misplaced table tokens opening) :
    (run table tokens).Notes opening ∨
      ∃ outer, Misplaced table tokens outer ∧ Belongs tokens opening outer := by
  cases misplaced with
  | unknown member kind words missing =>
      obtain ⟨before, after, rfl⟩ := List.append_of_mem member
      refine .inl (notes_opening kind words (.inl ?_))
      simpa [BlockTable.contains] using missing
  | @tooDeep before after split opens deep =>
      subst split
      rcases Nat.lt_or_eq_of_le deep with deeper | limit
      · exact .inr (exists_tooDeep_around opens deeper)
      · obtain ⟨kind, helper, arguments, words⟩ := Token.exists_words_of_opensBlock opens
        refine .inl (notes_opening kind words (.inr ?_))
        rw [length_blocks_run fun token member => inside token (List.mem_append_left _ member),
          limit]

private theorem exists_opening_of_mem_blocks
    (inside : ∀ token ∈ tokens, token.kind ≠ .endOfSource) {block : OpenBlock}
    (member : block ∈ (run table tokens).blocks) :
    ∃ opening ∈ tokens, opening.kind.isTag = true ∧ block.tags.span = opening.span := by
  obtain ⟨trail, accounted⟩ := exists_accounted_run table inside
  rw [accounted.sound.blocks] at member
  obtain ⟨trace, traceMember, rfl⟩ := List.mem_map.mp member
  have opened : trace.opening ∈ (of tokens).opened := by
    rw [accounted.opened]
    exact List.mem_map_of_mem traceMember
  obtain ⟨openingMember, opens⟩ := mem_of_mem_openings (List.mem_append_left _ opened)
  refine ⟨trace.opening, openingMember, ?_, (accounted.sound.traces trace traceMember).span⟩
  rw [(Token.exists_words_of_opensBlock opens).1]
  rfl

/-- Whether a diagnostic is one of a tag that could be delimited. -/
def Placed (tokens : List Token) (diagnostic : Diagnostic) : Prop :=
  diagnostic.fault.isLexical = false ∧
    ∃ token ∈ tokens, token.kind.isTag = true ∧ diagnostic.span = token.span

theorem Placed.append
    {diagnostic : Diagnostic} (placed : Placed tokens diagnostic) (more : List Token) :
    Placed (tokens ++ more) diagnostic := by
  obtain ⟨own, token, member, tag, span⟩ := placed
  exact ⟨own, token, List.mem_append_left more member, tag, span⟩

private theorem placed_of_mem_faults
    {token : Token} (tag : token.kind.isTag = true) {faults : List Fault}
    (own : ∀ fault ∈ faults, fault.isLexical = false) {diagnostic : Diagnostic}
    (member : diagnostic ∈ faults.map fun fault => ⟨fault, token.span⟩) :
    Placed (tokens ++ [token]) diagnostic := by
  obtain ⟨fault, listed, rfl⟩ := List.mem_map.mp member
  exact ⟨own fault listed, token, List.mem_concat_self, tag, rfl⟩

theorem Step.placed
    {builder after : Builder} {token : Token} (step : Step table builder token after)
    (openings : ∀ block ∈ builder.blocks,
      ∃ opening ∈ tokens, opening.kind.isTag = true ∧ block.tags.span = opening.span)
    (placed : ∀ diagnostic ∈ builder.diagnostics.toList, Placed tokens diagnostic) :
    ∀ diagnostic ∈ after.diagnostics.toList, Placed (tokens ++ [token]) diagnostic := by
  intro diagnostic member
  have earlier (listed : diagnostic ∈ builder.diagnostics.toList) :
      Placed (tokens ++ [token]) diagnostic := (placed diagnostic listed).append [token]
  cases step with
  | pass => exact earlier member
  | refuse faults tag _ own =>
      rw [report_diagnostics] at member
      rcases List.mem_append.mp member with listed | now
      · exact earlier listed
      · exact placed_of_mem_faults tag own now
  | add node faults _ tag own =>
      rw [push_diagnostics, report_diagnostics] at member
      rcases List.mem_append.mp member with listed | now
      · exact earlier listed
      · have some : faults ≠ [] := by
          rintro rfl
          exact absurd now List.not_mem_nil
        exact placed_of_mem_faults (tag some) own now
  | enter helper arguments kind =>
      rw [enter_diagnostics] at member
      rcases List.mem_append.mp member with listed | now
      · exact earlier listed
      · have tag : token.kind.isTag = true := by
          rw [kind]
          rfl
        exact placed_of_mem_faults tag (fun _ => entryFaults_isLexical) now
  | turn => exact earlier member
  | leave inner block outer _ _ blocks =>
      rw [leave_diagnostics] at member
      rcases List.mem_append.mp member with listed | now
      · exact earlier listed
      · obtain ⟨dropped, droppedMember, rfl⟩ := List.mem_map.mp now
        obtain ⟨opening, openingMember, tag, span⟩ :=
          openings dropped (by rw [blocks]; exact List.mem_append_left _ droppedMember)
        exact ⟨rfl, opening, List.mem_append_left _ openingMember, tag, span⟩

theorem placed_of_mem_diagnostics
    (inside : ∀ token ∈ tokens, token.kind ≠ .endOfSource) :
    ∀ diagnostic ∈ (run table tokens).diagnostics.toList, Placed tokens diagnostic := by
  induction tokens using List.reverseRecOn with
  | nil => exact fun _ member => absurd member List.not_mem_nil
  | append_singleton tokens token inductionHypothesis =>
      have earlier : ∀ other ∈ tokens, other.kind ≠ .endOfSource := fun other member =>
        inside other (List.mem_append_left _ member)
      rw [run_append_singleton]
      exact (step_spec table _ token).placed
        (fun _ => exists_opening_of_mem_blocks earlier) (inductionHypothesis earlier)

private theorem placed_of_mem_finish
    (inside : ∀ token ∈ tokens, token.kind ≠ .endOfSource) {diagnostic : Diagnostic}
    (member : diagnostic ∈ (run table tokens).finish) :
    Placed tokens diagnostic := by
  rcases List.mem_append.mp member with noted | unclosed
  · exact placed_of_mem_diagnostics inside diagnostic noted
  · obtain ⟨block, blockMember, rfl⟩ := List.mem_map.mp unclosed
    obtain ⟨opening, openingMember, tag, span⟩ := exists_opening_of_mem_blocks inside blockMember
    exact ⟨rfl, opening, openingMember, tag, span⟩

end Builder

/-! ## Diagnostics of the source -/

namespace Token

theorem isLexical_of_diagnostic?
    {token : Token} {diagnostic : Diagnostic} (reads : token.diagnostic? = some diagnostic) :
    diagnostic.fault.isLexical = true ∧ token.kind.isTag = true ∧
      diagnostic.span = token.span := by
  obtain ⟨kind, lexeme, trim, span⟩ := token
  cases kind <;> simp [diagnostic?, Kind.fault?] at reads <;> subst reads <;>
    exact ⟨rfl, rfl, rfl⟩

private theorem nodup_diagnostics
    {source : String} (short : byteLength source.toList < 2 ^ 32) :
    ((content source).filterMap diagnostic?).Nodup := by
  refine List.Pairwise.filterMap diagnostic? ?_ (pairwise_before_content short)
  intro first second before diagnostic reads other otherReads same
  have span := (isLexical_of_diagnostic? reads).2.2
  have otherSpan := (isLexical_of_diagnostic? otherReads).2.2
  rw [same, otherSpan] at span
  exact before.ne (congrArg Span.start span.symm)

end Token

/-! ## Lenient reading -/

namespace Document

def Reported (diagnostics : List Diagnostic) (token : Token) : Prop :=
  ∃ diagnostic ∈ diagnostics, diagnostic.span = token.span

/-- Whether a document and diagnostics leave nothing of a source out. -/
structure AccountsFor (table : BlockTable) (source : String) (document : Document)
    (diagnostics : List Diagnostic) : Prop where
  covered : ∃ shown : List Token,
    shown.Sublist (Token.content source) ∧ document.marks.map some = shown.map Token.mark? ∧
      ∀ token ∈ Token.content source,
        token ∈ shown ∨ Reported diagnostics token ∨
          ∃ opening,
            Belongs (Token.content source) token opening ∧
              Discarded table (Token.content source) opening ∧
              (∀ outer, Discarded table (Token.content source) outer →
                ¬ Belongs (Token.content source) opening outer) ∧
              Reported diagnostics opening
  located : ∀ diagnostic ∈ diagnostics,
    ∃ token ∈ Token.content source,
      token.kind.isTag = true ∧ diagnostic.span = token.span ∧
        ∃ before after,
          source.toList = before ++ '{' :: '{' :: after ∧
            Position.start.advance before = diagnostic.span.start
  lexical : ∀ diagnostic ∈ (Token.content source).filterMap Token.diagnostic?,
    diagnostics.count diagnostic = 1
  ordered : diagnostics.Pairwise fun first second => first.le second = true
  whole : diagnostics = [] →
    document.marks.map some = (Token.content source).map Token.mark?

variable {table : BlockTable} {source : String}

theorem mem_diagnostics_iff {diagnostic : Diagnostic} :
    diagnostic ∈ (readLenient table source).2 ↔
      diagnostic ∈ (Builder.run table (Token.content source)).finish ∨
        diagnostic ∈ (Token.content source).filterMap Token.diagnostic? := by
  rw [readLenient_eq, (Diagnostic.perm_sortByPlace _).mem_iff, List.mem_append]

private theorem reported_of_notes
    {token : Token} (noted : (Builder.run table (Token.content source)).Notes token) :
    Reported (readLenient table source).2 token := by
  obtain ⟨diagnostic, member, span⟩ := noted
  exact ⟨diagnostic, mem_diagnostics_iff.mpr (.inl (List.mem_append_left _ member)), span⟩

private theorem reported_of_lexical
    {token : Token} (member : token ∈ Token.content source)
    (lexical : token.diagnostic?.isSome = true) :
    Reported (readLenient table source).2 token := by
  obtain ⟨diagnostic, reads⟩ := Option.isSome_iff_exists.mp lexical
  have listed := List.mem_filterMap.mpr ⟨token, member, reads⟩
  exact ⟨diagnostic, mem_diagnostics_iff.mpr (.inr listed),
    (Token.isLexical_of_diagnostic? reads).2.2⟩

section Accounted

variable {trail : Trail}
  (accounted : Accounted table (Token.content source)
    (Builder.run table (Token.content source)) trail)

include accounted

private theorem reported_of_opened
    {opening : Token} (opened : opening ∈ (of (Token.content source)).opened) :
    Reported (readLenient table source).2 opening := by
  rw [accounted.opened] at opened
  obtain ⟨trace, member, rfl⟩ := List.mem_map.mp opened
  refine ⟨trace.block.unclosed, mem_diagnostics_iff.mpr (.inl (List.mem_append_right _ ?_)),
    (accounted.sound.traces trace member).span⟩
  rw [accounted.sound.blocks]
  exact List.mem_map_of_mem (List.mem_map_of_mem member)

/-- A discarded block has a diagnostic or lies in another one. -/
theorem reported_or_belongs_of_discarded
    {opening : Token} (discarded : Discarded table (Token.content source) opening) :
    Reported (readLenient table source).2 opening ∨
      ∃ outer, Discarded table (Token.content source) outer ∧
        Belongs (Token.content source) opening outer := by
  cases discarded with
  | misplaced misplaced =>
      have inside : ∀ token ∈ Token.content source, token.kind ≠ .endOfSource := fun _ =>
        Token.kind_ne_endOfSource_of_mem_content
      rcases Builder.notes_or_belongs_of_misplaced inside misplaced with noted | within
      · exact .inl (reported_of_notes noted)
      · obtain ⟨outer, outerMisplaced, belongs⟩ := within
        exact .inr ⟨outer, .misplaced outerMisplaced, belongs⟩
  | unclosed member opens unclosed =>
      have listed := (perm_openings_of _).mem_iff.mpr (List.mem_filter.mpr ⟨member, opens⟩)
      rcases List.mem_append.mp listed with opened | rest
      · exact .inl (reported_of_opened accounted opened)
      rcases List.mem_append.mp rest with closed | dropped
      · obtain ⟨⟨_, closing⟩, pair, rfl⟩ := List.mem_map.mp closed
        exact absurd pair (unclosed closing)
      · exact .inl (reported_of_notes (accounted.dropped opening dropped))

private theorem exists_outermost_reported
    (short : byteLength source.toList < 2 ^ 32) {token opening : Token}
    (belongs : Belongs (Token.content source) token opening)
    (discarded : Discarded table (Token.content source) opening) :
    ∃ outermost,
      Belongs (Token.content source) token outermost ∧
        Discarded table (Token.content source) outermost ∧
        (∀ outer, Discarded table (Token.content source) outer →
          ¬ Belongs (Token.content source) outermost outer) ∧
        Reported (readLenient table source).2 outermost := by
  obtain ⟨outermost, within, lost, alone⟩ :=
    exists_outermost (Token.nodup_content short) belongs discarded
  refine ⟨outermost, within, lost, alone, ?_⟩
  rcases reported_or_belongs_of_discarded accounted lost with reported | around
  · exact reported
  · obtain ⟨outer, outerLost, outerBelongs⟩ := around
    exact absurd outerBelongs (alone outer outerLost)

private theorem reported_or_outermost
    (short : byteLength source.toList < 2 ^ 32) {token opening : Token}
    (discarded : Discarded table (Token.content source) opening)
    (within : token = opening ∨ Belongs (Token.content source) token opening) :
    Reported (readLenient table source).2 token ∨
      ∃ outermost,
        Belongs (Token.content source) token outermost ∧
          Discarded table (Token.content source) outermost ∧
          (∀ outer, Discarded table (Token.content source) outer →
            ¬ Belongs (Token.content source) outermost outer) ∧
          Reported (readLenient table source).2 outermost := by
  rcases within with rfl | belongs
  · rcases reported_or_belongs_of_discarded accounted discarded with reported | around
    · exact .inl reported
    · obtain ⟨outer, outerLost, belongs⟩ := around
      exact .inr (exists_outermost_reported accounted short belongs outerLost)
  · exact .inr (exists_outermost_reported accounted short belongs discarded)

end Accounted

private theorem count_lexical
    (short : byteLength source.toList < 2 ^ 32) {diagnostic : Diagnostic}
    (member : diagnostic ∈ (Token.content source).filterMap Token.diagnostic?) :
    (readLenient table source).2.count diagnostic = 1 := by
  obtain ⟨token, _, reads⟩ := List.mem_filterMap.mp member
  have lexical := (Token.isLexical_of_diagnostic? reads).1
  have foreign : diagnostic ∉ (Builder.run table (Token.content source)).finish := by
    intro listed
    have placed := Builder.placed_of_mem_finish
      (fun _ => Token.kind_ne_endOfSource_of_mem_content) listed
    rw [placed.1] at lexical
    exact Bool.noConfusion lexical
  rw [readLenient_eq, (Diagnostic.perm_sortByPlace _).count_eq, List.count_append,
    List.count_eq_zero_of_not_mem foreign, Nat.zero_add,
    List.count_eq_one_of_mem (Token.nodup_diagnostics short) member]

theorem exists_tag_of_mem_diagnostics
    {diagnostic : Diagnostic} (member : diagnostic ∈ (readLenient table source).2) :
    ∃ token ∈ Token.content source,
      token.kind.isTag = true ∧ diagnostic.span = token.span := by
  rcases mem_diagnostics_iff.mp member with finished | lexical
  · exact (Builder.placed_of_mem_finish
      (fun _ => Token.kind_ne_endOfSource_of_mem_content) finished).2
  · obtain ⟨token, tokenMember, reads⟩ := List.mem_filterMap.mp lexical
    exact ⟨token, tokenMember, (Token.isLexical_of_diagnostic? reads).2⟩

theorem exists_braces_of_mem_diagnostics
    {diagnostic : Diagnostic} (member : diagnostic ∈ (readLenient table source).2) :
    ∃ before after,
      source.toList = before ++ '{' :: '{' :: after ∧
        Position.start.advance before = diagnostic.span.start := by
  obtain ⟨token, tokenMember, tag, span⟩ := exists_tag_of_mem_diagnostics member
  rw [span]
  exact Token.exists_braces_of_mem_content tokenMember tag

/-- Lenient reading drops nothing silently. -/
theorem readLenient_accountsFor
    (table : BlockTable) {source : String} (short : byteLength source.toList < 2 ^ 32) :
    AccountsFor table source (readLenient table source).1 (readLenient table source).2 := by
  have inside : ∀ token ∈ Token.content source, token.kind ≠ .endOfSource := fun _ =>
    Token.kind_ne_endOfSource_of_mem_content
  obtain ⟨trail, accounted⟩ := Builder.exists_accounted_run table inside
  refine ⟨⟨trail.root, ?_, ?_, ?_⟩, ?_, ?_, ?_, ?_⟩
  · have root : trail.root.Sublist trail.all := by
      have sublist := Trail.shown_sublist_append trail.root trail.traces []
      rwa [List.append_nil] at sublist
    exact root.trans accounted.sublist
  · rw [readLenient_eq]
    exact accounted.sound.nodes
  · intro token member
    rcases accounted.covered token member with shown | explained
    · rcases Trail.mem_shown.mp shown with root | ⟨trace, traceMember, within⟩
      · exact .inl root
      -- What an open block shows at the end of the source is not in the document.
      · have opened : trace.opening ∈ (of (Token.content source)).opened := by
          rw [accounted.opened]
          exact List.mem_map_of_mem traceMember
        obtain ⟨openingMember, opens⟩ := mem_of_mem_openings (List.mem_append_left _ opened)
        have lost : Discarded table (Token.content source) trace.opening :=
          .unclosed openingMember opens
            (not_mem_closed (Token.nodup_content short) (.inl opened))
        exact .inr (reported_or_outermost accounted short lost
          ((accounted.sound.traces trace traceMember).own token within))
    · cases explained with
      | noted noted => exact .inr (.inl (reported_of_notes noted))
      | lexical lexical => exact .inr (.inl (reported_of_lexical member lexical))
      | @lost opening discarded within =>
          have lost : Discarded table (Token.content source) opening := by
            rcases discarded with dropped | misplaced
            · obtain ⟨openingMember, opens⟩ := mem_of_mem_openings
                (List.mem_append_right _ (List.mem_append_right _ dropped))
              exact .unclosed openingMember opens
                (not_mem_closed (Token.nodup_content short) (.inr dropped))
            · exact .misplaced misplaced
          exact .inr (reported_or_outermost accounted short lost within)
  · intro diagnostic member
    obtain ⟨token, tokenMember, tag, span⟩ := exists_tag_of_mem_diagnostics member
    exact ⟨token, tokenMember, tag, span, exists_braces_of_mem_diagnostics member⟩
  · exact fun _ => count_lexical short
  · rw [readLenient_eq]
    exact Diagnostic.pairwise_sortByPlace _
  · intro silent
    have accepted : read table source = .ok (readLenient table source).1 := by
      unfold read
      split
      · rename_i document result
        rw [result]
      · rename_i document diagnostics some result
        rw [result] at silent
        exact absurd silent some
    exact (section_of_read accepted).marks_eq.symm

/-- A block that is not known, with a run of text in it. -/
theorem readLenient_accountsFor_unknown :
    let source := "a" ++ Fault.tagText "#x" ++ "b" ++ Fault.tagText "/x"
    let document : Document := ⟨[.text "a" ⟨⟨1, 1⟩, 1⟩]⟩
    let diagnostics : List Diagnostic := [⟨.unknownBlock "x", ⟨⟨1, 2⟩, 6⟩⟩]
    readLenient .empty source = (document, diagnostics) ∧
      byteLength source.toList < 2 ^ 32 ∧
      AccountsFor .empty source document diagnostics := by
  intro source document diagnostics
  have result : readLenient .empty source = (document, diagnostics) := by decide +kernel
  have short : byteLength source.toList < 2 ^ 32 := by decide
  have accounts := readLenient_accountsFor .empty short
  rw [result] at accounts
  exact ⟨result, short, accounts⟩

end Document

end Stencil
