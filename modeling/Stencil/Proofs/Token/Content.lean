import Stencil.Token.Scan

/-!
The tokens of a source up to its end, and the pieces that they stand for.
-/

namespace Stencil.Token

/-- Whether a token of this kind is a tag, delimited or not. -/
def Kind.isTag : Kind → Bool
  | .text | .endOfSource => false
  | _ => true

def Kind.isCompleteTag (kind : Kind) : Bool :=
  kind.isTag && kind.fault?.isNone

private theorem classify_isCompleteTag (body : List Char) :
    (classify body).1.isCompleteTag = true := by
  unfold classify
  split <;> rfl

private theorem interpret_isCompleteTag (form : Form) (body : List Char) :
    (interpret form body).1.isCompleteTag = true := by
  cases form with
  | plain => exact classify_isCompleteTag (Text.trim body)
  | raw => rfl
  | remark => rfl
  | longRemark => rfl

theorem tagPiece_isCompleteTag
    (opening : Opening) (body : List Char) (terminator : Terminator) :
    (tagPiece opening body terminator).kind.isCompleteTag = true :=
  interpret_isCompleteTag opening.form (readEnd opening.form body terminator).1

private theorem Kind.isTag_of_isCompleteTag
    {kind : Kind} (complete : kind.isCompleteTag = true) :
    kind.isTag = true := by
  rw [isCompleteTag, Bool.and_eq_true] at complete
  exact complete.1

theorem readTag_isTag (text : List Char) :
    (readTag text).1.kind.isTag = true := by
  simp only [readTag]
  split
  · exact Kind.isTag_of_isCompleteTag (tagPiece_isCompleteTag _ _ _)
  · split <;> rfl

theorem readPiece_kind_ne_endOfSource (text : List Char) :
    (readPiece text).1.kind ≠ .endOfSource := by
  unfold readPiece
  split
  · intro same
    have tag := readTag_isTag ‹List Char›
    rw [same] at tag
    exact Bool.noConfusion tag
  · simp

theorem opensTag_of_isTag
    {text : List Char} (tag : (readPiece text).1.kind.isTag = true) :
    ∃ rest, text = '{' :: '{' :: rest := by
  unfold readPiece at tag
  split at tag
  · exact ⟨_, rfl⟩
  · exact Bool.noConfusion tag

/-- The tokens of consecutive pieces, the first of which starts at a place. -/
def lay (place : Position) : List Piece → List Token
  | [] => []
  | piece :: rest => piece.token place :: lay (place.advance piece.source) rest

theorem lay_append (place : Position) (first second : List Piece) :
    lay place (first ++ second) =
      lay place first ++ lay (place.advance (first.flatMap Piece.source)) second := by
  induction first generalizing place with
  | nil => rfl
  | cons piece rest inductionHypothesis =>
      simp only [List.cons_append, lay, inductionHypothesis, List.flatMap_cons,
        Position.advance_append]

theorem map_kind_lay (place : Position) (pieces : List Piece) :
    (lay place pieces).map Token.kind = pieces.map Piece.kind := by
  induction pieces generalizing place with
  | nil => rfl
  | cons piece rest inductionHypothesis =>
      rw [lay, List.map_cons, List.map_cons, inductionHypothesis]
      rfl

def endAt (place : Position) : Token :=
  ⟨.endOfSource, "", .unmarked, .emptyAt place⟩

private theorem locate_eq_lay (place : Position) (pieces : List Piece) :
    locate place pieces =
      lay place pieces ++ [endAt (place.advance (pieces.flatMap Piece.source))] := by
  induction pieces generalizing place with
  | nil => rfl
  | cons piece rest inductionHypothesis =>
      rw [locate, lay, inductionHypothesis, List.flatMap_cons, Position.advance_append]
      rfl

/-- A token of consecutive pieces stands for one of them, at the place after those before. -/
theorem exists_piece_of_mem_lay
    {place : Position} {pieces : List Piece} {token : Token}
    (member : token ∈ lay place pieces) :
    ∃ before piece after,
      pieces = before ++ piece :: after ∧
        token = piece.token (place.advance (before.flatMap Piece.source)) := by
  induction pieces generalizing place with
  | nil => exact absurd member List.not_mem_nil
  | cons piece rest inductionHypothesis =>
      rcases List.mem_cons.mp member with same | later
      · exact ⟨[], piece, rest, rfl, same⟩
      · obtain ⟨before, found, after, split, equal⟩ := inductionHypothesis later
        refine ⟨piece :: before, found, after, by rw [split, List.cons_append], ?_⟩
        rw [equal, List.flatMap_cons, Position.advance_append]

def content (source : String) : List Token :=
  (scan source).takeWhile fun token => token.kind != .endOfSource

theorem exists_rest_of_mem_pieces
    {text : List Char} {before after : List Piece} {piece : Piece}
    (split : pieces text = before ++ piece :: after) :
    ∃ rest,
      rest ≠ [] ∧ piece = (readPiece rest).1 ∧ after = pieces (readPiece rest).2 ∧
        text = before.flatMap Piece.source ++ rest := by
  induction before generalizing text with
  | nil =>
      by_cases empty : text = []
      · rw [empty, pieces_nil] at split
        exact absurd split (by simp)
      · rw [pieces_of_ne_nil empty, List.nil_append, List.cons.injEq] at split
        exact ⟨text, empty, split.1.symm, split.2.symm, rfl⟩
  | cons first before inductionHypothesis =>
      by_cases empty : text = []
      · rw [empty, pieces_nil] at split
        exact absurd split (by simp)
      · rw [pieces_of_ne_nil empty, List.cons_append, List.cons.injEq] at split
        obtain ⟨rest, nonempty, read, others, tiles⟩ := inductionHypothesis split.2
        refine ⟨rest, nonempty, read, others, ?_⟩
        rw [← readPiece_tiles text, tiles, split.1, List.flatMap_cons, List.append_assoc]

private theorem kind_ne_endOfSource_of_mem_lay
    {place : Position} {text : List Char} {token : Token}
    (member : token ∈ lay place (pieces text)) :
    token.kind ≠ .endOfSource := by
  obtain ⟨before, piece, after, split, rfl⟩ := exists_piece_of_mem_lay member
  obtain ⟨rest, _, rfl, _, _⟩ := exists_rest_of_mem_pieces split
  exact readPiece_kind_ne_endOfSource rest

theorem content_eq_lay (source : String) :
    content source = lay .start (pieces source.toList) := by
  rw [content, scan, locate_eq_lay, List.takeWhile_append_of_pos]
  · simp [endAt]
  · intro token member
    exact bne_iff_ne.mpr (kind_ne_endOfSource_of_mem_lay member)

theorem scan_eq_content (source : String) :
    scan source = content source ++ [endAt (Position.start.advance source.toList)] := by
  rw [content_eq_lay, scan, locate_eq_lay, pieces_tile]

theorem kind_ne_endOfSource_of_mem_content
    {source : String} {token : Token} (member : token ∈ content source) :
    token.kind ≠ .endOfSource := by
  rw [content_eq_lay] at member
  exact kind_ne_endOfSource_of_mem_lay member

end Stencil.Token
