import Stencil.Proofs.Token.Content

/-!
Reading a source token by token. A scanner holds what is left of the source; the tokens that it
gives one after the other are those of the whole source.
-/

namespace Stencil.Token

/-- A source that is being read: what is left of it, the number of bytes and the place before
that, and the diagnostics of the tags there that could not be delimited. -/
structure Scanner where
  rest : List Char
  offset : UInt32
  place : Position
  diagnostics : List Diagnostic

namespace Scanner

def start (source : String) : Scanner :=
  ⟨source.toList, 0, .start, []⟩

/-- Reads the next token; at the end of the source this changes nothing. -/
def next (scanner : Scanner) : Token × Scanner :=
  match scanner.rest with
  | [] => (endAt scanner.place, scanner)
  | c :: rest =>
      let (piece, after) := readPiece (c :: rest)
      let token := piece.token scanner.place
      (token,
        { rest := after
          offset := scanner.offset + UInt32.ofNat (byteLength piece.source)
          place := scanner.place.advance piece.source
          diagnostics := scanner.diagnostics ++ token.diagnostic?.toList })

def after (source : String) : Nat → Scanner
  | 0 => start source
  | count + 1 => (after source count).next.2

def token (source : String) (index : Nat) : Token :=
  (after source index).next.1

private theorem next_of_rest_eq_nil
    {scanner : Scanner} (ended : scanner.rest = []) :
    scanner.next = (endAt scanner.place, scanner) := by
  rw [next, ended]

theorem next_of_readPiece
    {scanner : Scanner} {piece : Piece} {later : List Char} (more : scanner.rest ≠ [])
    (read : readPiece scanner.rest = (piece, later)) :
    scanner.next =
      (piece.token scanner.place,
        { rest := later
          offset := scanner.offset + UInt32.ofNat (byteLength piece.source)
          place := scanner.place.advance piece.source
          diagnostics :=
            scanner.diagnostics ++ (piece.token scanner.place).diagnostic?.toList }) := by
  obtain ⟨c, rest, equal⟩ := List.exists_cons_of_ne_nil more
  rw [equal] at read
  rw [next, equal]
  dsimp only
  rw [read]

end Scanner

private theorem pieces_flatMap_drop (text : List Char) (count : Nat) :
    pieces (((pieces text).drop count).flatMap Piece.source) = (pieces text).drop count := by
  induction count generalizing text with
  | zero => rw [List.drop_zero, pieces_tile]
  | succ count inductionHypothesis =>
      by_cases empty : text = []
      · rw [empty, pieces_nil, List.drop_nil, List.flatMap_nil, pieces_nil]
      · rw [pieces_of_ne_nil empty, List.drop_succ_cons]
        exact inductionHypothesis (readPiece text).2

theorem readPiece_of_pieces
    {text : List Char} {piece : Piece} {later : List Piece}
    (read : pieces text = piece :: later) :
    text ≠ [] ∧ readPiece text = (piece, later.flatMap Piece.source) := by
  have nonempty : text ≠ [] := by
    intro empty
    rw [empty, pieces_nil] at read
    exact List.cons_ne_nil piece later read.symm
  rw [pieces_of_ne_nil nonempty, List.cons.injEq] at read
  refine ⟨nonempty, Prod.ext read.1 ?_⟩
  rw [← read.2, pieces_tile]

namespace Scanner

variable (source : String)

def done (count : Nat) : List Piece :=
  (pieces source.toList).take count

def consumed (count : Nat) : List Char :=
  (done source count).flatMap Piece.source

theorem after_eq (count : Nat) :
    after source count =
      { rest := ((pieces source.toList).drop count).flatMap Piece.source
        offset := UInt32.ofNat (byteLength (consumed source count))
        place := Position.start.advance (consumed source count)
        diagnostics := (lay .start (done source count)).filterMap diagnostic? } := by
  induction count with
  | zero => rw [List.drop_zero, pieces_tile]; rfl
  | succ count inductionHypothesis =>
      rw [after, inductionHypothesis]
      cases left : (pieces source.toList).drop count with
      | nil =>
          have length : (pieces source.toList).length ≤ count := List.drop_eq_nil_iff.mp left
          have same : done source (count + 1) = done source count := by
            rw [done, done, List.take_of_length_le length, List.take_of_length_le (by omega)]
          rw [next_of_rest_eq_nil rfl, consumed, consumed, same,
            List.drop_of_length_le (Nat.le_succ_of_le length)]
      | cons piece later =>
          have remaining := pieces_flatMap_drop source.toList count
          rw [left] at remaining
          obtain ⟨nonempty, read⟩ := readPiece_of_pieces remaining
          have rest : (pieces source.toList).drop (count + 1) = later := by
            rw [← List.drop_drop, left, List.drop_one, List.tail_cons]
          have done_succ : done source (count + 1) = done source count ++ [piece] := by
            rw [done, done, List.take_add_one, ← List.head?_drop, left]
            rfl
          rw [next_of_readPiece nonempty read, consumed, consumed, done_succ, rest]
          simp only [List.flatMap_append, List.flatMap_cons, List.flatMap_nil,
            List.append_nil, byteLength_append, UInt32.ofNat_add, Position.advance_append,
            lay_append, List.filterMap_append, lay, List.filterMap_cons, List.filterMap_nil]
          cases (piece.token (Position.start.advance ((done source count).flatMap
            Piece.source))).diagnostic? <;> rfl

theorem token_of_pieces
    {source : String} {before later : List Piece} {piece : Piece}
    (split : pieces source.toList = before ++ piece :: later) :
    token source before.length =
      piece.token (Position.start.advance (before.flatMap Piece.source)) := by
  have left : (pieces source.toList).drop before.length = piece :: later := by
    rw [split, List.drop_left]
  have taken : done source before.length = before := by
    rw [done, split, List.take_left]
  have remaining := pieces_flatMap_drop source.toList before.length
  rw [left] at remaining
  obtain ⟨nonempty, read⟩ := readPiece_of_pieces remaining
  rw [token, after_eq, left, next_of_readPiece nonempty read, consumed, taken]

theorem consumed_of_length_le
    {source : String} {count : Nat} (all : (pieces source.toList).length ≤ count) :
    consumed source count = source.toList := by
  rw [consumed, done, List.take_of_length_le all, pieces_tile]

theorem token_of_length_le
    {source : String} {index : Nat} (all : (pieces source.toList).length ≤ index) :
    token source index = endAt (Position.start.advance source.toList) := by
  rw [token, after_eq, List.drop_of_length_le all, next_of_rest_eq_nil rfl,
    consumed_of_length_le all]

theorem exists_split
    {source : String} {index : Nat} (inside : index < (pieces source.toList).length) :
    ∃ before piece later,
      pieces source.toList = before ++ piece :: later ∧ before.length = index := by
  refine ⟨(pieces source.toList).take index, (pieces source.toList)[index],
    (pieces source.toList).drop (index + 1), ?_, ?_⟩
  · rw [List.getElem_cons_drop, List.take_append_drop]
  · exact List.length_take_of_le (Nat.le_of_lt inside)

theorem done_of_split
    {source : String} {before later : List Piece} {piece : Piece}
    (split : pieces source.toList = before ++ piece :: later) :
    done source before.length = before ∧
      done source (before.length + 1) = before ++ [piece] := by
  rw [done, done, split]
  constructor
  · exact List.take_left
  · rw [List.take_length_add_append]
    rfl

theorem map_token_range
    {source : String} {count : Nat} (inside : count ≤ (pieces source.toList).length) :
    (List.range count).map (token source) = lay .start (done source count) := by
  induction count with
  | zero => rfl
  | succ count inductionHypothesis =>
      obtain ⟨before, piece, later, split, rfl⟩ := exists_split inside
      obtain ⟨earlier, next⟩ := done_of_split split
      rw [List.range_succ, List.map_append, inductionHypothesis (Nat.le_of_lt inside), earlier,
        next, lay_append, List.map_singleton, token_of_pieces split]
      rfl

/-- Reading a source token by token gives its tokens, up to the end. -/
theorem map_token_range_eq_scan (source : String) :
    (List.range ((pieces source.toList).length + 1)).map (token source) = scan source := by
  rw [List.range_succ, List.map_append, map_token_range (Nat.le_refl _), List.map_singleton,
    token_of_length_le (Nat.le_refl _), scan_eq_content, content_eq_lay, done, List.take_length]

end Scanner
end Stencil.Token
