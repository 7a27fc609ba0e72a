import Mathlib
import Stencil.Proofs.Builder.Moved
import Stencil.Proofs.Diagnostic.Sort
import Stencil.Proofs.Reading.Lenient
import Stencil.Proofs.Token.Append

/-!
Reading one source after another. If the first ends with a complete tag and leaves no block open,
then the two are read apart, and only the places of the second move.
-/

namespace Stencil

open Nesting

/-- A span of a text, moved to where the text starts in a source. -/
def Span.move (origin : Position) (span : Span) : Span :=
  ⟨Position.move origin span.start, span.len⟩

namespace Token

private theorem lay_move
    (before passed : List Char) {pieces : List Piece}
    (nonempty : ∀ piece ∈ pieces, piece.source ≠ [])
    (short : byteLength (passed ++ pieces.flatMap Piece.source) < 2 ^ 32) :
    lay (Position.start.advance (before ++ passed)) pieces =
      (lay (Position.start.advance passed) pieces).map
        (mapSpan (Span.move (Position.start.advance before))) := by
  induction pieces generalizing passed with
  | nil => rfl
  | cons piece rest inductionHypothesis =>
      have positive := byteLength_pos (nonempty piece List.mem_cons_self)
      rw [List.flatMap_cons, ← List.append_assoc] at short
      have room : byteLength passed + 1 < 2 ^ 32 := by
        simp only [byteLength_append] at short
        omega
      have later := inductionHypothesis (passed ++ piece.source)
        (fun other member => nonempty other (List.mem_cons_of_mem piece member)) short
      rw [lay, lay, List.map_cons, ← Position.advance_append, ← Position.advance_append,
        List.append_assoc, later, Position.advance_append_eq_move before room]
      rfl

private theorem content_empty : content "" = [] := by
  rw [content_eq_lay, String.toList_empty, pieces_nil, lay]

private theorem content_append
    {first second : String} (short : byteLength second.toList < 2 ^ 32)
    (complete : ∀ token, (content first).getLast? = some token →
      token.kind.isCompleteTag = true) :
    content (first ++ second) =
      content first ++ (content second).map
        (mapSpan (Span.move (Position.start.advance first.toList))) := by
  have completePiece : ∀ piece, (pieces first.toList).getLast? = some piece →
      piece.kind.isCompleteTag = true := by
    intro piece last
    have kinds := congrArg List.getLast? (map_kind_lay .start (pieces first.toList))
    rw [← content_eq_lay, List.getLast?_map, List.getLast?_map, last] at kinds
    obtain ⟨token, found, same⟩ := Option.map_eq_some_iff.mp kinds
    rw [← same]
    exact complete token found
  have nonempty : ∀ piece ∈ pieces second.toList, piece.source ≠ [] := fun _ =>
    source_ne_nil_of_mem_pieces
  have moved := lay_move first.toList [] nonempty (by rwa [List.nil_append, pieces_tile])
  rw [content_eq_lay, content_eq_lay, content_eq_lay, String.toList_append,
    pieces_append completePiece, lay_append, pieces_tile]
  rw [List.append_nil] at moved
  rw [moved, Position.advance_nil]

private theorem filterMap_diagnostic?_map (change : Span → Span) (tokens : List Token) :
    (tokens.map (mapSpan change)).filterMap diagnostic? =
      (tokens.filterMap diagnostic?).map (Diagnostic.mapSpan change) := by
  rw [List.filterMap_map, List.map_filterMap]
  refine List.filterMap_congr fun token _ => ?_
  obtain ⟨kind, lexeme, trim, span⟩ := token
  cases kind <;> rfl

end Token

namespace Builder

private theorem document_after (earlier builder : Builder) (change : Span → Span) :
    (earlier.after change builder).document =
      ⟨earlier.document.nodes ++ (builder.document.mapSpan change).nodes⟩ := by
  simp only [document, after, Document.mapSpan, Node.mapSpanNodes_eq_map, Array.toList_append,
    Array.toList_map]

private theorem finish_after
    {earlier : Builder} (closed : earlier.blocks = []) (change : Span → Span)
    (builder : Builder) :
    (earlier.after change builder).finish =
      earlier.finish ++ builder.finish.map (Diagnostic.mapSpan change) := by
  simp only [finish, after, closed, Array.toList_append, Array.toList_map, List.map_nil,
    List.append_nil, List.map_append, List.map_map, List.append_assoc]
  rfl

end Builder

namespace Position

/-- Of two places in a source the one of the shorter prefix comes first. -/
theorem le_advance_iff
    (before : List Char) {text first second : List Char} (firstStarts : first <+: text)
    (secondStarts : second <+: text)
    (firstShort : byteLength (before ++ first) + 1 < 2 ^ 32)
    (secondShort : byteLength (before ++ second) + 1 < 2 ^ 32) :
    (start.advance (before ++ first)).le (start.advance (before ++ second)) = true ↔
      first.length ≤ second.length := by
  constructor
  · intro lower
    -- A longer prefix has the shorter one at its start, and ends further on.
    by_contra longer
    have starts := List.prefix_of_prefix_length_le secondStarts firstStarts (by omega)
    obtain ⟨more, rfl⟩ := starts
    have nonempty : more ≠ [] := by
      rintro rfl
      simp at longer
    rw [← List.append_assoc] at firstShort lower
    exact (before_advance nonempty firstShort).not_le lower
  · intro shorter
    obtain ⟨more, rfl⟩ := List.prefix_of_prefix_length_le firstStarts secondStarts shorter
    by_cases empty : more = []
    · rw [empty, List.append_nil]
      exact le_refl _
    · rw [← List.append_assoc] at secondShort ⊢
      exact (before_advance empty secondShort).le

end Position

namespace Document

variable {table : BlockTable} {first second : String}

def rawDiagnostics (table : BlockTable) (source : String) : List Diagnostic :=
  (Builder.run table (Token.content source)).finish ++
    (Token.content source).filterMap Token.diagnostic?

private theorem exists_braces_of_mem_raw
    {source : String} {diagnostic : Diagnostic}
    (member : diagnostic ∈ rawDiagnostics table source) :
    ∃ before after,
      source.toList = before ++ '{' :: '{' :: after ∧
        Position.start.advance before = diagnostic.span.start :=
  exists_braces_of_mem_diagnostics (mem_diagnostics_iff.mpr (List.mem_append.mp member))

private theorem exists_prefix_of_mem_raw
    (short : byteLength (first ++ second).toList < 2 ^ 32) {diagnostic : Diagnostic}
    (member : diagnostic ∈ rawDiagnostics table second) :
    ∃ before, before <+: second.toList ∧ byteLength (first.toList ++ before) + 1 < 2 ^ 32 ∧
      diagnostic.span.start = Position.start.advance before ∧
        Position.move (Position.start.advance first.toList) diagnostic.span.start =
          Position.start.advance (first.toList ++ before) := by
  obtain ⟨before, after, split, place⟩ := exists_braces_of_mem_raw member
  have brace : '{'.utf8Size = 1 := by decide
  rw [String.toList_append, split] at short
  simp only [byteLength_append, byteLength_cons, brace] at short
  refine ⟨before, ⟨'{' :: '{' :: after, split.symm⟩, ?_, place.symm, ?_⟩
  · rw [byteLength_append]
    omega
  · rw [← place, Position.advance_append_eq_move first.toList (by omega)]

/-- Whether another source can follow without being read differently: there is nothing before
it, or a complete tag outside all blocks. -/
def Ended (source : String) : Prop :=
  source = "" ∨
    (∃ token, (Token.content source).getLast? = some token ∧
      token.kind.isCompleteTag = true) ∧
    (of (Token.content source)).opened = []

theorem Ended.complete
    (ended : Ended first) {token : Token} (last : (Token.content first).getLast? = some token) :
    token.kind.isCompleteTag = true := by
  rcases ended with rfl | ⟨⟨found, foundLast, complete⟩, _⟩
  · rw [Token.content_empty] at last
    exact nomatch last
  · rw [foundLast] at last
    rwa [← Option.some.inj last]

theorem Ended.closed
    (ended : Ended first) :
    (Builder.run table (Token.content first)).blocks = [] := by
  have length : (Builder.run table (Token.content first)).blocks.length =
      (of (Token.content first)).opened.length :=
    Builder.length_blocks_run fun _ => Token.kind_ne_endOfSource_of_mem_content
  rcases ended with rfl | ⟨_, outside⟩
  · rw [Token.content_empty]
    rfl
  · rw [outside] at length
    exact List.eq_nil_of_length_eq_zero length

private theorem before_of_mem_raw
    (table : BlockTable) (short : byteLength (first ++ second).toList < 2 ^ 32) :
    ∀ one ∈ rawDiagnostics table first,
      ∀ other ∈ (rawDiagnostics table second).map
          (Diagnostic.mapSpan (Span.move (Position.start.advance first.toList))),
        one.span.start.Before other.span.start := by
  intro one oneMember other otherMember
  obtain ⟨original, originalMember, rfl⟩ := List.mem_map.mp otherMember
  obtain ⟨before, after, split, place⟩ := exists_braces_of_mem_raw oneMember
  obtain ⟨later, _, room, _, moved⟩ := exists_prefix_of_mem_raw short originalMember
  show one.span.start.Before (Position.move _ original.span.start)
  rw [moved, ← place, split, List.append_assoc]
  rw [split, List.append_assoc] at room
  exact Position.before_advance (List.cons_ne_nil _ _) room

private theorem le_move_of_mem_raw
    (table : BlockTable) (short : byteLength (first ++ second).toList < 2 ^ 32) :
    ∀ one ∈ rawDiagnostics table second, ∀ other ∈ rawDiagnostics table second,
      one.le other =
        (one.mapSpan (Span.move (Position.start.advance first.toList))).le
          (other.mapSpan (Span.move (Position.start.advance first.toList))) := by
  intro one oneMember other otherMember
  obtain ⟨before, starts, room, place, moved⟩ := exists_prefix_of_mem_raw short oneMember
  obtain ⟨otherBefore, otherStarts, otherRoom, otherPlace, otherMoved⟩ :=
    exists_prefix_of_mem_raw short otherMember
  have alone := Position.le_advance_iff [] starts otherStarts
    (by rw [byteLength_append] at room; rw [List.nil_append]; omega)
    (by rw [byteLength_append] at otherRoom; rw [List.nil_append]; omega)
  have together := Position.le_advance_iff first.toList starts otherStarts room otherRoom
  rw [List.nil_append, List.nil_append, ← place, ← otherPlace] at alone
  rw [← moved, ← otherMoved] at together
  rw [Bool.eq_iff_iff]
  exact alone.trans together.symm

/-- Two sources read one after the other: the nodes and the diagnostics of the first, then those
of the second, moved to where it starts. -/
theorem readLenient_append
    (table : BlockTable) {first second : String} (ended : Ended first)
    (short : byteLength (first ++ second).toList < 2 ^ 32) :
    let moved := Span.move (Position.start.advance first.toList)
    readLenient table (first ++ second) =
      (⟨(readLenient table first).1.nodes ++
          ((readLenient table second).1.mapSpan moved).nodes⟩,
        (readLenient table first).2 ++
          (readLenient table second).2.map (Diagnostic.mapSpan moved)) := by
  intro moved
  have shortSecond : byteLength second.toList < 2 ^ 32 := by
    rw [String.toList_append, byteLength_append] at short
    omega
  have content := Token.content_append shortSecond fun _ => ended.complete
  have closed : (Builder.run table (Token.content first)).blocks = [] := ended.closed
  have run := Builder.run_append_of_closed table closed moved (Token.content second)
  have apart := before_of_mem_raw table short
  have sorted := Diagnostic.sortByPlace_map (le_move_of_mem_raw table short)
  unfold rawDiagnostics at apart sorted
  rw [List.map_append] at apart sorted
  rw [readLenient_eq, content, run, Builder.document_after, Builder.finish_after closed,
    List.filterMap_append, Token.filterMap_diagnostic?_map, Prod.mk.injEq]
  refine ⟨by rw [readLenient_eq, readLenient_eq], ?_⟩
  rw [readLenient_eq, readLenient_eq, Diagnostic.sortByPlace_append apart, sorted]

/-- Two sources with faults of their own, the second over two lines. -/
theorem readLenient_append_faults :
    let first := "a\n" ++ Fault.tagText ""
    let second := Fault.tagText "/b" ++ "\nc" ++ Fault.tagText "^d"
    Ended first ∧ byteLength (first ++ second).toList < 2 ^ 32 ∧
      readLenient .empty (first ++ second) =
        (⟨[.text "a\n" ⟨⟨1, 1⟩, 2⟩, .text "\nc" ⟨⟨2, 11⟩, 2⟩]⟩,
          [⟨.emptyExpression, ⟨⟨2, 1⟩, 4⟩⟩, ⟨.unexpectedClose "b", ⟨⟨2, 5⟩, 6⟩⟩,
            ⟨.invertedSection "d", ⟨⟨3, 2⟩, 6⟩⟩]) := by
  intro first second
  have ended : Ended first := by
    refine .inr ⟨⟨⟨.escaped, "", .unmarked, ⟨⟨2, 1⟩, 4⟩⟩, ?_, rfl⟩, ?_⟩
    · cbv
    · cbv
  have short : byteLength (first ++ second).toList < 2 ^ 32 := by decide
  have alone : readLenient .empty first =
      (⟨[.text "a\n" ⟨⟨1, 1⟩, 2⟩]⟩, [⟨.emptyExpression, ⟨⟨2, 1⟩, 4⟩⟩]) := by cbv
  have next : readLenient .empty second =
      (⟨[.text "\nc" ⟨⟨1, 7⟩, 2⟩]⟩,
        [⟨.unexpectedClose "b", ⟨⟨1, 1⟩, 6⟩⟩, ⟨.invertedSection "d", ⟨⟨2, 2⟩, 6⟩⟩]) := by cbv
  have together := readLenient_append .empty ended short
  rw [alone, next] at together
  refine ⟨ended, short, together.trans ?_⟩
  cbv

end Document

end Stencil
