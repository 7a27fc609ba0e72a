import Stencil.Proofs.Text.Bytes
import Stencil.Proofs.Token.Append
import Stencil.Proofs.Token.Place
import Stencil.Proofs.Token.Scanner

/-!
The tokens of a source tile it: the stretches of bytes that they are read off lie next to each
other from the start of the source to its end, and each token says where its stretch is.
-/

namespace Stencil

namespace Token

private theorem not_infix_upToTag (text : List Char) :
    ¬ ['{', '{'] <:+: (upToTag text).1 := by
  induction text with
  | nil => exact fun inside => absurd (List.infix_nil.mp inside) (by simp)
  | cons c rest inductionHypothesis =>
      by_cases opens : opensTag (c :: rest) = true
      · rw [upToTag_of_opensTag opens]
        exact fun inside => absurd (List.infix_nil.mp inside) (by simp)
      · rw [upToTag_cons opens]
        intro inside
        rcases List.infix_cons_iff.mp inside with starts | later
        · have run : c :: (upToTag rest).1 <+: c :: rest :=
            (List.prefix_cons_inj c).mpr ⟨_, upToTag_tiles rest⟩
          exact opens (opensTag_iff.mpr (starts.trans run))
        · exact inductionHypothesis later

private theorem readSign_ne_nil_of_isRemark
    {text : List Char} (remark : (readSign text).1.2.isRemark = true) :
    (readSign text).1.1 ≠ [] := by
  unfold readSign at remark ⊢
  split at remark
  · simp
  · simp
  · exact Bool.noConfusion remark

theorem braces_readOpening (text : List Char) :
    ['{', '{'] <+: (readOpening text).1.text := by
  simp only [readOpening]
  by_cases raw : (readMarks text).1.raw = true
  · rw [if_pos raw]
    exact ⟨_, rfl⟩
  · rw [if_neg raw]
    exact ⟨_, rfl⟩

private theorem exists_source_readTag (text : List Char) :
    ∃ rest, (readTag text).1.source = (readOpening text).1.text ++ rest := by
  simp only [readTag]
  split
  · exact ⟨_, List.append_assoc _ _ _⟩
  · split
    · exact ⟨_, rfl⟩
    · exact ⟨_, rfl⟩

theorem three_le_length_of_isRemark
    {text : List Char} (remark : (readOpening text).1.form.isRemark = true) :
    3 ≤ (readOpening text).1.text.length := by
  simp only [readOpening] at remark ⊢
  by_cases raw : (readMarks text).1.raw = true
  · rw [if_pos raw] at remark
    exact Bool.noConfusion remark
  · rw [if_neg raw] at remark ⊢
    have sign := List.length_pos_iff.mpr (readSign_ne_nil_of_isRemark remark)
    simp only [List.length_cons, List.length_append]
    omega

theorem toNat_length_of_faultless
    {piece : Piece} (faultless : piece.kind.fault? = none)
    (short : byteLength piece.source < 2 ^ 32) :
    piece.length.toNat = byteLength piece.source := by
  unfold Piece.length
  split
  · rename_i kind
    rw [kind] at faultless
    exact nomatch faultless
  · rename_i kind
    rw [kind] at faultless
    exact nomatch faultless
  · rw [UInt32.toNat_ofNat', Nat.mod_eq_of_lt short]

private theorem toNat_length_readTag_le
    {text : List Char} (short : byteLength (readTag text).1.source < 2 ^ 32) :
    (readTag text).1.length.toNat ≤ byteLength (readTag text).1.source := by
  cases found : cut (readOpening text).1.form (readOpening text).2 with
  | some result =>
      obtain ⟨body, terminator, after⟩ := result
      simp only [readTag, found] at short ⊢
      have complete := tagPiece_isCompleteTag (readOpening text).1 body terminator
      rw [Kind.isCompleteTag, Bool.and_eq_true, Option.isNone_iff_eq_none] at complete
      rw [toNat_length_of_faultless complete.2 short]
  | none =>
      have bytes := length_le_byteLength (readOpening text).1.text
      cases remark : (readOpening text).1.form.isRemark with
      | true =>
          have long := three_le_length_of_isRemark remark
          simp only [readTag, found, remark, if_true, byteLength_append]
          show 3 ≤ _
          omega
      | false =>
          have long := (braces_readOpening text).length_le
          rw [List.length_cons, List.length_singleton] at long
          simp only [readTag, found, remark, Bool.false_eq_true, if_false, byteLength_append]
          show 2 ≤ _
          omega

private theorem toNat_length_readPiece_le
    {text : List Char} (short : byteLength (readPiece text).1.source < 2 ^ 32) :
    (readPiece text).1.length.toNat ≤ byteLength (readPiece text).1.source := by
  unfold readPiece at short ⊢
  split at short
  · exact toNat_length_readTag_le short
  · rw [toNat_length_of_faultless rfl short]

private theorem readPiece_of_run
    {text : List Char} (run : (readPiece text).1.kind = .text) :
    readPiece text =
      (⟨.text, (upToTag text).1, .unmarked, (upToTag text).1⟩, (upToTag text).2) := by
  unfold readPiece at run ⊢
  split at run
  · have tag := readTag_isTag ‹List Char›
    rw [run] at tag
    exact Bool.noConfusion tag
  · rfl

private theorem braces_of_tag
    {text : List Char} (tag : (readPiece text).1.kind ≠ .text) :
    ['{', '{'] <+: (readPiece text).1.source := by
  fun_cases readPiece text with
  | case1 rest =>
      obtain ⟨later, source⟩ := exists_source_readTag rest
      rw [source]
      exact (braces_readOpening rest).trans (List.prefix_append _ _)
  | case2 text noTag run after upTo =>
      rw [readPiece] at tag
      · exact absurd rfl tag
      · exact noTag

theorem isTag_after_run
    {text : List Char} (run : (readPiece text).1.kind = .text) (more : (readPiece text).2 ≠ []) :
    (readPiece (readPiece text).2).1.kind.isTag = true := by
  rw [readPiece_of_run run] at more ⊢
  obtain ⟨rest, split⟩ := opensTag_iff.mp (opensTag_upToTag more)
  show (readPiece (upToTag text).2).1.kind.isTag = true
  rw [← split]
  exact readTag_isTag rest

/-! ## Tiling -/

/-- What a token says of the stretch of source that it was read off, and of the text before. -/
structure Describes (before stretch : List Char) (token : Token) : Prop where
  inside : token.kind ≠ .endOfSource
  line : token.span.start.line.toNat = Position.lineAfter before
  col : token.span.start.col.toNat = Position.columnAfter before
  length : token.kind.fault? = none → token.span.len.toNat = byteLength stretch
  length_le : token.span.len.toNat ≤ byteLength stretch
  run : token.kind = .text → token.lexeme.toList = stretch ∧ ¬ ['{', '{'] <:+: stretch
  braces : token.kind ≠ .text → ['{', '{'] <+: stretch

/-- Whether so many readings of a source tile it. -/
structure Tiles (source : String) (count : Nat) : Prop where
  start : (Scanner.after source 0).offset = 0
  stretch : ∀ index < count,
    ∃ before stretch later,
      source.toList = before ++ stretch ++ later ∧ stretch ≠ [] ∧
        (Scanner.after source index).offset.toNat = byteLength before ∧
        (Scanner.after source (index + 1)).offset.toNat = byteLength (before ++ stretch) ∧
        Describes before stretch (Scanner.token source index)
  stop : (Scanner.after source count).offset.toNat = source.utf8ByteSize
  boundary : ∀ index ≤ count,
    (⟨(Scanner.after source index).offset.toNat⟩ : String.Pos.Raw).IsValid source
  apart : ∀ index, index + 1 < count → (Scanner.token source index).kind = .text →
    (Scanner.token source (index + 1)).kind ≠ .text
  ended : ∀ index, count ≤ index →
    Scanner.token source index = endAt (Position.start.advance source.toList)
  recorded : ∀ index ≤ count,
    (Scanner.after source index).diagnostics.map Diagnostic.span =
      (((List.range index).map (Scanner.token source)).filter fun token =>
        token.kind.fault?.isSome).map Token.span
  scanned : (List.range (count + 1)).map (Scanner.token source) = scan source
  reported : (Scanner.after source count).diagnostics = (content source).filterMap diagnostic?

private theorem length_lay (place : Position) (pieces : List Piece) :
    (lay place pieces).length = pieces.length := by
  induction pieces generalizing place with
  | nil => rfl
  | cons piece rest inductionHypothesis =>
      rw [lay, List.length_cons, inductionHypothesis, List.length_cons]

private theorem map_span_filterMap_diagnostic? (tokens : List Token) :
    (tokens.filterMap diagnostic?).map Diagnostic.span =
      (tokens.filter fun token => token.kind.fault?.isSome).map Token.span := by
  induction tokens with
  | nil => rfl
  | cons token rest inductionHypothesis =>
      cases fault : token.kind.fault? with
      | none => simp [diagnostic?, fault, inductionHypothesis]
      | some fault => simp [diagnostic?, *]

namespace Scanner

variable {source : String}

private theorem consumed_of_split
    {before later : List Piece} {piece : Piece}
    (split : pieces source.toList = before ++ piece :: later) :
    consumed source before.length = before.flatMap Piece.source ∧
      consumed source (before.length + 1) = before.flatMap Piece.source ++ piece.source := by
  obtain ⟨earlier, next⟩ := done_of_split split
  rw [consumed, consumed, earlier, next, List.flatMap_append, List.flatMap_singleton]
  exact ⟨rfl, rfl⟩

private theorem exists_append_consumed (source : String) (count : Nat) :
    ∃ rest, source.toList = consumed source count ++ rest := by
  refine ⟨((pieces source.toList).drop count).flatMap Piece.source, ?_⟩
  rw [consumed, done, ← List.flatMap_append, List.take_append_drop, pieces_tile]

private theorem toNat_offset_after
    (short : byteLength source.toList < 2 ^ 32) (count : Nat) :
    (after source count).offset.toNat = byteLength (consumed source count) := by
  obtain ⟨rest, split⟩ := exists_append_consumed source count
  rw [split, byteLength_append] at short
  rw [after_eq, UInt32.toNat_ofNat', Nat.mod_eq_of_lt (by omega)]

theorem describes_of_split
    (short : byteLength source.toList < 2 ^ 32) {before later : List Piece} {piece : Piece}
    (split : pieces source.toList = before ++ piece :: later) :
    Describes (before.flatMap Piece.source) piece.source (token source before.length) := by
  obtain ⟨rest, nonempty, rfl, rfl, tiles⟩ := exists_rest_of_mem_pieces split
  rw [token_of_pieces split]
  have positive := byteLength_pos (readPiece_source_ne_nil nonempty)
  rw [tiles, ← readPiece_tiles rest, byteLength_append, byteLength_append] at short
  have earlier : byteLength (before.flatMap Piece.source) + 1 < 2 ^ 32 := by omega
  obtain ⟨line, col⟩ := Position.toNat_advance earlier
  refine ⟨readPiece_kind_ne_endOfSource rest, line, col, ?_, ?_, ?_, ?_⟩
  · intro faultless
    exact toNat_length_of_faultless faultless (by omega)
  · exact toNat_length_readPiece_le (by omega)
  · intro run
    have read := readPiece_of_run run
    constructor
    · show (String.ofList (readPiece rest).1.lexeme).toList = _
      rw [read, String.toList_ofList]
    · rw [read]
      exact not_infix_upToTag rest
  · exact braces_of_tag

private theorem kind_succ_ne_text
    {index : Nat} (inside : index + 1 < (pieces source.toList).length)
    (run : (token source index).kind = .text) :
    (token source (index + 1)).kind ≠ .text := by
  obtain ⟨before, piece, later, split, rfl⟩ := exists_split (Nat.lt_of_succ_lt inside)
  obtain ⟨rest, _, rfl, same, _⟩ := exists_rest_of_mem_pieces split
  rw [token_of_pieces split] at run
  cases later with
  | nil =>
      rw [split, List.length_append, List.length_singleton] at inside
      omega
  | cons next others =>
      obtain ⟨more, read⟩ := readPiece_of_pieces same.symm
      have tag := isTag_after_run run more
      have shifted : pieces source.toList =
          (before ++ [(readPiece rest).1]) ++ next :: others := by
        rw [split, List.append_assoc, List.singleton_append]
      have reading := token_of_pieces shifted
      rw [List.length_append, List.length_singleton] at reading
      rw [reading]
      rw [read] at tag
      intro text
      rw [show next.kind = .text from text] at tag
      exact Bool.noConfusion tag

end Scanner

/-- A source below four gigabytes is tiled by its tokens. -/
theorem tiles_content
    {source : String} (short : byteLength source.toList < 2 ^ 32) :
    Tiles source (content source).length := by
  have count : (content source).length = (pieces source.toList).length := by
    rw [content_eq_lay, length_lay]
  rw [count]
  refine ⟨rfl, ?_, ?_, ?_, ?_, ?_, ?_, Scanner.map_token_range_eq_scan source, ?_⟩
  · intro index inside
    obtain ⟨before, piece, later, split, rfl⟩ := Scanner.exists_split inside
    obtain ⟨here, next⟩ := Scanner.consumed_of_split split
    obtain ⟨rest, nonempty, read, _, tiles⟩ := exists_rest_of_mem_pieces split
    refine ⟨before.flatMap Piece.source, piece.source, (readPiece rest).2, ?_, ?_, ?_, ?_,
      Scanner.describes_of_split short split⟩
    · rw [tiles, read, List.append_assoc, readPiece_tiles]
    · rw [read]
      exact readPiece_source_ne_nil nonempty
    · rw [Scanner.toNat_offset_after short, here]
    · rw [Scanner.toNat_offset_after short, next]
  · rw [Scanner.toNat_offset_after short, Scanner.consumed_of_length_le (Nat.le_refl _),
      byteLength_eq_utf8Len, String.utf8Len_toList]
  · intro index _
    obtain ⟨rest, split⟩ := Scanner.exists_append_consumed source index
    rw [Scanner.toNat_offset_after short]
    exact isValid_byteLength split
  · exact fun index => Scanner.kind_succ_ne_text
  · exact fun index => Scanner.token_of_length_le
  · intro index inside
    rw [Scanner.after_eq, Scanner.map_token_range inside]
    exact map_span_filterMap_diagnostic? _
  · rw [Scanner.after_eq, Scanner.done, List.take_length, content_eq_lay]

/-- Text of several bytes per character, a tag over two lines, and a tag without an end. -/
theorem tiles_content_unterminated :
    let source := "é\n" ++ Fault.tagText "a\n" ++ "\x7b\x7bb"
    byteLength source.toList < 2 ^ 32 ∧ (content source).length = 3 ∧ Tiles source 3 := by
  intro source
  have short : byteLength source.toList < 2 ^ 32 := by decide
  have count : (content source).length = 3 := by decide +kernel
  have tiles := tiles_content short
  rw [count] at tiles
  exact ⟨short, count, tiles⟩

end Token

end Stencil
