import Mathlib.Data.List.Nodup
import Stencil.Proofs.Position
import Stencil.Proofs.Token.Content

/-!
Where the tokens of a source stand: each tag at two opening braces, and each token before the
next one.
-/

namespace Stencil

theorem byteLength_pos {text : List Char} (nonempty : text ≠ []) :
    0 < byteLength text := by
  obtain ⟨c, rest, rfl⟩ := List.exists_cons_of_ne_nil nonempty
  have positive := c.utf8Size_pos
  rw [byteLength_cons]
  omega

namespace Token

theorem source_ne_nil_of_mem_pieces
    {text : List Char} {piece : Piece} (member : piece ∈ pieces text) :
    piece.source ≠ [] := by
  obtain ⟨before, after, split⟩ := List.append_of_mem member
  obtain ⟨rest, nonempty, rfl, _, _⟩ := exists_rest_of_mem_pieces split
  exact readPiece_source_ne_nil nonempty

theorem exists_braces_of_mem_content
    {source : String} {token : Token} (member : token ∈ content source)
    (tag : token.kind.isTag = true) :
    ∃ before after,
      source.toList = before ++ '{' :: '{' :: after ∧
        Position.start.advance before = token.span.start := by
  rw [content_eq_lay] at member
  obtain ⟨before, piece, after, split, rfl⟩ := exists_piece_of_mem_lay member
  obtain ⟨rest, _, rfl, _, tiles⟩ := exists_rest_of_mem_pieces split
  obtain ⟨later, rfl⟩ := opensTag_of_isTag tag
  exact ⟨before.flatMap Piece.source, later, tiles, rfl⟩

private theorem pairwise_before_lay
    (before : List Char) {pieces : List Piece}
    (nonempty : ∀ piece ∈ pieces, piece.source ≠ [])
    (short : byteLength (before ++ pieces.flatMap Piece.source) < 2 ^ 32) :
    (lay (Position.start.advance before) pieces).Pairwise fun first second =>
      first.span.start.Before second.span.start := by
  induction pieces generalizing before with
  | nil => exact .nil
  | cons piece rest inductionHypothesis =>
      have pieceNonempty := nonempty piece List.mem_cons_self
      rw [lay, ← Position.advance_append, List.pairwise_cons]
      refine ⟨?_, ?_⟩
      · intro token member
        obtain ⟨between, found, after, split, rfl⟩ := exists_piece_of_mem_lay member
        have foundNonempty : found.source ≠ [] :=
          nonempty found (by rw [split]; simp)
        have positive := byteLength_pos foundNonempty
        have shorter :
            byteLength (before ++ (piece.source ++ between.flatMap Piece.source)) + 1 <
              2 ^ 32 := by
          rw [split] at short
          simp only [List.flatMap_cons, List.flatMap_append, byteLength_append] at short ⊢
          omega
        have later :=
          Position.before_advance (List.append_ne_nil_of_left_ne_nil pieceNonempty _) shorter
        rw [← List.append_assoc, Position.advance_append] at later
        exact later
      · refine inductionHypothesis (before ++ piece.source)
          (fun other member => nonempty other (List.mem_cons_of_mem piece member)) ?_
        rwa [List.append_assoc, ← List.flatMap_cons]

theorem pairwise_before_content
    {source : String} (short : byteLength source.toList < 2 ^ 32) :
    (content source).Pairwise fun first second =>
      first.span.start.Before second.span.start := by
  rw [content_eq_lay]
  refine pairwise_before_lay [] (fun _ => source_ne_nil_of_mem_pieces) ?_
  rwa [List.nil_append, pieces_tile]

theorem nodup_content
    {source : String} (short : byteLength source.toList < 2 ^ 32) :
    (content source).Nodup := by
  refine (pairwise_before_content short).imp ?_
  intro first second before same
  exact before.ne (congrArg (fun token : Token => token.span.start) same)

/-- In a short source no two tokens have one place. -/
theorem eq_of_span_content
    {source : String} (short : byteLength source.toList < 2 ^ 32) {first second : Token}
    (firstMember : first ∈ content source) (secondMember : second ∈ content source)
    (same : first.span = second.span) : first = second := by
  have apart : ((content source).map Token.span).Nodup := by
    rw [List.Nodup, List.pairwise_map]
    refine (pairwise_before_content short).imp ?_
    intro one other before equal
    exact before.ne (congrArg Span.start equal)
  exact List.inj_on_of_nodup_map apart firstMember secondMember same

end Token

end Stencil
