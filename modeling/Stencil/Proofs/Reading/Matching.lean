import Stencil.Proofs.Builder.Closing

/-!
Every opening tag of a source either has its closing tag or is reported as unclosed, and every
closing tag ends a block or is reported itself.
-/

namespace Stencil

open Nesting

namespace Document

variable {table : BlockTable} {source : String}

/-- The blocks that are reported as unclosed are those still open at the end of the source, and
those that were open within a closed one. -/
theorem perm_ofUnclosed_readLenient :
    ((readLenient table source).2.filter Diagnostic.ofUnclosed).Perm
      (((of (Token.content source)).opened ++ (of (Token.content source)).dropped).map
        Token.unclosed) := by
  rw [filter_readLenient_of_ofNesting table source fun _ => Diagnostic.ofNesting_of_ofUnclosed,
    Builder.filter_ofUnclosed_unclosed, List.map_append]
  exact (Diagnostic.perm_sortByPlace _).trans (List.perm_append_comm.trans
    ((Builder.perm_ofUnclosed_run table fun _ =>
      Token.kind_ne_endOfSource_of_mem_content).append_left _))

private theorem count_opening
    (short : byteLength source.toList < 2 ^ 32) {token : Token}
    (member : token ∈ Token.content source) (opens : token.opensBlock = true) :
    ((of (Token.content source)).closed.map Prod.fst).count token +
      (readLenient table source).2.countP (fun diagnostic =>
        diagnostic.fault.kind = .unclosedBlock ∧ diagnostic.span = token.span) = 1 := by
  have once : (of (Token.content source)).openings.count token = 1 := by
    rw [(perm_openings_of _).count_eq]
    exact List.count_eq_one_of_mem ((Token.nodup_content short).filter _)
      (List.mem_filter.mpr ⟨member, opens⟩)
  have reported :
      (readLenient table source).2.countP (fun diagnostic =>
        diagnostic.fault.kind = .unclosedBlock ∧ diagnostic.span = token.span) =
      ((of (Token.content source)).opened ++ (of (Token.content source)).dropped).count
        token := by
    calc
      _ = ((readLenient table source).2.filter Diagnostic.ofUnclosed).countP
            (fun diagnostic => diagnostic.span = token.span) := by
          rw [List.countP_filter]
          refine List.countP_congr fun diagnostic _ => ?_
          simp [Diagnostic.ofUnclosed, and_comm]
      _ = (((of (Token.content source)).opened ++ (of (Token.content source)).dropped).map
            Token.unclosed).countP (fun diagnostic => diagnostic.span = token.span) :=
          perm_ofUnclosed_readLenient.countP_eq _
      _ = _ := by
          rw [List.countP_map, List.count]
          refine List.countP_congr fun other found => ?_
          have otherMember := (mem_of_mem_openings (mem_openings_of_unclosed found)).1
          rw [Function.comp_apply, Token.unclosed, decide_eq_true_iff, beq_iff_eq]
          constructor
          · exact Token.eq_of_span_content short otherMember member
          · exact congrArg Token.span
  rw [openings, List.count_append, List.count_append] at once
  rw [reported, List.count_append]
  omega

private theorem settled_readLenient
    (table : BlockTable) {source : String} (short : byteLength source.toList < 2 ^ 32)
    {closing : Token} (member : closing ∈ Token.content source)
    (kind : closing.kind = .blockClose) :
    closing.Settled (of (Token.content source)).closed (readLenient table source).2 := by
  have inside : ∀ token ∈ Token.content source, token.kind ≠ .endOfSource := fun _ =>
    Token.kind_ne_endOfSource_of_mem_content
  have unclosedElsewhere : ∀ diagnostic ∈
      (of (Token.content source)).opened.map Token.unclosed, diagnostic.span ≠ closing.span := by
    intro diagnostic found same
    obtain ⟨opening, opened, rfl⟩ := List.mem_map.mp found
    obtain ⟨openingFound, opens⟩ := mem_of_mem_openings (List.mem_append_left _ opened)
    obtain rfl := Token.eq_of_span_content short openingFound member same
    simp [Token.opensBlock, kind] at opens
  have lexicalElsewhere : ∀ diagnostic ∈ (Token.content source).filterMap Token.diagnostic?,
      diagnostic.span ≠ closing.span := by
    intro diagnostic found same
    obtain ⟨token, tokenFound, reads⟩ := List.mem_filterMap.mp found
    have span := (Token.isLexical_of_diagnostic? reads).2.2
    obtain rfl := Token.eq_of_span_content short tokenFound member (span.symm.trans same)
    simp [Token.diagnostic?, kind, Token.Kind.fault?] at reads
  have none : ∀ pair ∈ ([] : List (Token × Token)), pair.2 ≠ closing := fun _ found =>
    absurd found List.not_mem_nil
  have settled := Builder.settled_run table inside (Token.nodup_content short)
    (fun _ found _ => Token.eq_of_span_content short found) member kind
  rw [readLenient_eq]
  dsimp only
  rw [Builder.finish, Builder.unclosed_blocks_run table inside]
  exact ((settled.append none unclosedElsewhere).append none lexicalElsewhere).perm
    (Diagnostic.perm_sortByPlace _)

/-- What the diagnostics of a source and the pairs of an opening tag and the closing tag that ends
its block say of its tags. -/
structure PairsTags (table : BlockTable) (source : String) (diagnostics : List Diagnostic)
    (pairs : List (Token × Token)) : Prop where
  ended : ∀ opening ∈ Token.content source, ∀ closing,
    (opening, closing) ∈ pairs ↔
      ∃ before after,
        Token.content source = before ++ closing :: after ∧
          Builder.Ends table before opening closing
  matched : ∀ opening closing, (opening, closing) ∈ pairs →
    opening.opensBlock = true ∧ closing.kind = .blockClose ∧
      opening.words.head? = some closing.lexeme ∧
        [opening, closing].Sublist (Token.content source)
  uncrossed : ∀ opening closing, (opening, closing) ∈ pairs →
    ∀ later last, (later, last) ∈ pairs →
      ¬ [opening, later, closing, last].Sublist (Token.content source)
  openings : ∀ opening ∈ Token.content source, opening.opensBlock = true →
    (pairs.map Prod.fst).count opening +
      diagnostics.countP (fun diagnostic =>
        diagnostic.fault.kind = .unclosedBlock ∧ diagnostic.span = opening.span) = 1
  unclosed : ∀ diagnostic ∈ diagnostics, diagnostic.fault.kind = .unclosedBlock →
    ∃ opening ∈ Token.content source,
      opening.opensBlock = true ∧ diagnostic = opening.unclosed
  closings : ∀ closing ∈ Token.content source, closing.kind = .blockClose →
    closing.Settled pairs diagnostics

/-- Of a source that is not too long, each opening tag is paired or reported once, and so is each
closing tag. -/
theorem readLenient_pairsTags
    (table : BlockTable) {source : String} (short : byteLength source.toList < 2 ^ 32) :
    PairsTags table source (readLenient table source).2 (of (Token.content source)).closed := by
  have laid := laid_of (Token.nodup_content short)
  refine ⟨?_, ?_, laid.uncrossed, ?_, ?_, ?_⟩
  · intro opening member closing
    exact Builder.mem_closed_iff_ends table
      (fun _ => Token.kind_ne_endOfSource_of_mem_content)
      (fun _ found _ => Token.eq_of_span_content short found) member
  · intro opening closing paired
    obtain ⟨kind, named⟩ := laid.matched opening closing paired
    have first : opening ∈ (of (Token.content source)).closed.map Prod.fst :=
      List.mem_map_of_mem paired
    have opens := (mem_of_mem_openings
      (List.mem_append_right _ (List.mem_append_left _ first))).2
    exact ⟨opens, kind, named, laid.closed opening closing paired⟩
  · exact fun _ => count_opening short
  · intro diagnostic member kind
    have listed := List.mem_filter.mpr
      ⟨member, show diagnostic.ofUnclosed = true from decide_eq_true kind⟩
    obtain ⟨opening, found, rfl⟩ :=
      List.mem_map.mp (perm_ofUnclosed_readLenient.mem_iff.mp listed)
    obtain ⟨openingMember, opens⟩ := mem_of_mem_openings (mem_openings_of_unclosed found)
    exact ⟨opening, openingMember, opens, rfl⟩
  · exact fun _ => settled_readLenient table short

/-- A closing tag that ends an outer block, and leaves the inner one unclosed. -/
theorem readLenient_pairsTags_outer :
    let source := Fault.tagText "#if a" ++ Fault.tagText "#each b" ++ Fault.tagText "/if"
    let pairs : List (Token × Token) :=
      [(⟨.blockOpen, "if a", .unmarked, ⟨⟨1, 1⟩, 9⟩⟩,
        ⟨.blockClose, "if", .unmarked, ⟨⟨1, 21⟩, 7⟩⟩)]
    let diagnostics : List Diagnostic := [⟨.unclosedBlock "each", ⟨⟨1, 10⟩, 11⟩⟩]
    (readLenient .builtin source).2 = diagnostics ∧
      (of (Token.content source)).closed = pairs ∧ byteLength source.toList < 2 ^ 32 ∧
        PairsTags .builtin source diagnostics pairs := by
  intro source pairs diagnostics
  have result : (readLenient .builtin source).2 = diagnostics := by decide +kernel
  have closed : (of (Token.content source)).closed = pairs := by decide +kernel
  have short : byteLength source.toList < 2 ^ 32 := by decide
  have paired := readLenient_pairsTags .builtin short
  rw [result, closed] at paired
  exact ⟨result, closed, short, paired⟩

end Document

end Stencil
