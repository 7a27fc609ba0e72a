import Stencil.Proofs.Text.Lines
import Stencil.Proofs.Token.Delimiters

/-!
Where the tags of a source stand: how much of a tag its token covers, and the line that the tag
starts on.
-/

namespace Stencil.Token

open Text

/-- Whether a token of a kind and a length covers a part of its tag: all of it, but of a tag that
could not be delimited only characters of its opening. -/
structure Covers (kind : Kind) (length : Nat) (tag part : List Char) : Prop where
  nonempty : part ≠ []
  starts : part <+: tag
  length : length = byteLength part
  solid : part.getLast? ≠ some '\r'
  whole : kind.fault? = none → part = tag
  opening : kind.fault?.isSome = true → IsAscii part ∧ '\n' ∉ part

private theorem terminator_getLast? (form : Form) :
    ∀ terminator ∈ form.terminators, terminator.text.getLast? = some '}' := by
  cases form <;> decide

def isMark (c : Char) : Bool :=
  c = '{' || c = '~' || c = '!' || c = '-'

private theorem utf8Size_of_isMark {c : Char} (mark : isMark c = true) : c.utf8Size = 1 := by
  simp only [isMark, Bool.or_eq_true, decide_eq_true_eq] at mark
  rcases mark with ((rfl | rfl) | rfl) | rfl <;> rfl

private theorem all_isMark_openings (form : Form) :
    ∀ opening ∈ form.openings, opening.all isMark = true := by
  cases form <;> decide

private theorem all_isMark_readOpening (text : List Char) :
    (readOpening text).1.text.all isMark = true := by
  obtain ⟨opening, opens, equal⟩ := exists_opensWith_readOpening text
  rw [equal, List.all_append, all_isMark_openings _ opening opens.listed]
  rfl

private theorem covers_of_opening
    {kind : Kind} (faulty : kind.fault?.isSome = true) {text : List Char} {count : Nat}
    (positive : 0 < count) (enough : count ≤ (readOpening text).1.text.length)
    (rest : List Char) :
    Covers kind count ((readOpening text).1.text ++ rest)
      ((readOpening text).1.text.take count) := by
  have marks : ∀ c ∈ (readOpening text).1.text.take count, isMark c = true := fun c member =>
    List.all_eq_true.mp (all_isMark_readOpening text) c (List.mem_of_mem_take member)
  have ascii : IsAscii ((readOpening text).1.text.take count) := fun c member =>
    utf8Size_of_isMark (marks c member)
  have length := List.length_take_of_le enough
  refine ⟨?_, (List.take_prefix _ _).trans (List.prefix_append _ _), ?_, ?_, ?_, ?_⟩
  · apply List.ne_nil_of_length_pos
    rw [length]
    exact positive
  · rw [(byteLength_eq_length_iff _).mpr ascii, length]
  · intro last
    exact absurd (marks '\r' (List.mem_of_getLast? last)) (by decide)
  · intro faultless
    rw [faultless] at faulty
    exact Bool.noConfusion faulty
  · exact fun _ => ⟨ascii, fun member => absurd (marks '\n' member) (by decide)⟩

private theorem exists_covers_readTag
    {text : List Char} (short : byteLength (readTag text).1.source < 2 ^ 32) :
    ∃ part, Covers (readTag text).1.kind (readTag text).1.length.toNat
      (readTag text).1.source part := by
  have opened : readOpening text = ((readOpening text).1, (readOpening text).2) := rfl
  cases found : cut (readOpening text).1.form (readOpening text).2 with
  | some result =>
      obtain ⟨body, terminator, after⟩ := result
      rw [readTag_of_cut opened found] at short ⊢
      have complete := tagPiece_isCompleteTag (readOpening text).1 body terminator
      rw [Kind.isCompleteTag, Bool.and_eq_true, Option.isNone_iff_eq_none] at complete
      refine ⟨_, ?_, List.prefix_refl _, toNat_length_of_faultless complete.2 short, ?_,
        fun _ => rfl, ?_⟩
      · have nonempty := readTag_source_ne_nil text
        rwa [readTag_of_cut opened found] at nonempty
      · have last := terminator_getLast? _ terminator (mem_of_cut found)
        show (_ ++ terminator.text).getLast? ≠ _
        rw [List.getLast?_append, last]
        simp
      · intro faulty
        rw [complete.2] at faulty
        exact Bool.noConfusion faulty
  | none =>
      cases remark : (readOpening text).1.form.isRemark with
      | true =>
          rw [readTag_of_remark opened found remark]
          exact ⟨_, covers_of_opening rfl (by decide) (three_le_length_of_isRemark remark) _⟩
      | false =>
          rw [readTag_of_no_remark opened found remark]
          exact ⟨_, covers_of_opening rfl (by decide) (braces_readOpening text).length_le _⟩

private theorem exists_covers_readPiece
    {text : List Char} (tag : (readPiece text).1.kind.isTag = true)
    (short : byteLength (readPiece text).1.source < 2 ^ 32) :
    ∃ part, Covers (readPiece text).1.kind (readPiece text).1.length.toNat
      (readPiece text).1.source part := by
  obtain ⟨rest, rfl⟩ := opensTag_of_isTag tag
  exact exists_covers_readTag short

/-- Where a tag stands in a source: behind the lines before it and the lead on its own line. Its
token covers a part of it. From the tag on, the source holds the tag and what comes later, which
is also what is here on the line and what comes after the line. -/
structure Site (source : String) (token : Token) where
  before : List Char
  lead : List Char
  tag : List Char
  part : List Char
  later : List Char
  here : List Char
  after : List Char
  split : source.toList = before ++ lead ++ (tag ++ later)
  describes : Describes (before ++ lead) tag token
  covers : Covers token.kind token.span.len.toNat tag part
  isLine : IsLine source.toList before (lead ++ here) after
  opens : ['{'] <+: here

namespace Site

variable {source : String} {token : Token} (site : Site source token)

include site

theorem feedless : '\n' ∉ site.lead ∧ '\n' ∉ site.here := by
  have none := site.isLine.feedless
  rwa [List.mem_append, not_or] at none

theorem here_ne_nil : site.here ≠ [] := by
  obtain ⟨rest, same⟩ := site.opens
  rw [← same]
  exact List.cons_ne_nil '{' rest

theorem line_eq : token.span.start.line.toNat = 1 + feeds site.before := by
  have lead : feeds site.lead = 0 := List.count_eq_zero.mpr site.feedless.1
  rw [site.describes.line]
  show 1 + feeds (site.before ++ site.lead) = _
  rw [feeds_append, lead, Nat.add_zero]

theorem col_eq : token.span.start.col.toNat = 1 + byteLength site.lead := by
  rw [site.describes.col]
  show 1 + byteLength (Text.lead (site.before ++ site.lead)) = _
  rw [lead_append site.isLine.starts site.feedless.1]

/-- What is covered lies on the line where the tag starts if it has no line feed. -/
theorem length_part_le_iff : site.part.length ≤ site.here.length ↔ '\n' ∉ site.part := by
  obtain ⟨rest, same⟩ := site.covers.starts
  have whole := site.split.symm.trans site.isLine.split
  rw [List.append_assoc, List.append_assoc, List.append_cancel_left_eq,
    List.append_cancel_left_eq, ← same, List.append_assoc] at whole
  have ends := (endsLine_append _ site.here_ne_nil _).mp site.isLine.ends
  exact length_le_iff_of_endsLine whole site.feedless.2 ends site.covers.solid

theorem byteLength_part_le (faulty : token.kind.fault?.isSome = true) :
    byteLength site.part ≤ site.here.length := by
  obtain ⟨ascii, feedless⟩ := site.covers.opening faulty
  rw [(byteLength_eq_length_iff _).mpr ascii]
  exact site.length_part_le_iff.mpr feedless

end Site

/-- Every tag of a source below four gigabytes has its site. -/
theorem exists_site
    {source : String} (short : byteLength source.toList < 2 ^ 32) {token : Token}
    (member : token ∈ content source) (tag : token.kind.isTag = true) :
    Nonempty (Site source token) := by
  rw [content_eq_lay] at member
  obtain ⟨before, piece, after, split, rfl⟩ := exists_piece_of_mem_lay member
  have describes := Scanner.describes_of_split short split
  rw [Scanner.token_of_pieces split] at describes
  obtain ⟨rest, _, rfl, _, tiles⟩ := exists_rest_of_mem_pieces split
  obtain ⟨tail, equal⟩ := opensTag_of_isTag tag
  have whole : source.toList =
      before.flatMap Piece.source ++ ((readPiece rest).1.source ++ (readPiece rest).2) := by
    rw [tiles, readPiece_tiles]
  -- The line is cut at the tag, whose first brace is no end of a line.
  obtain ⟨earlier, here, afterLine, start, _, isLine⟩ := exists_isLine
    (before.flatMap Piece.source) (c := '{') (by decide) (by decide) ('{' :: tail)
  rw [← equal, ← tiles] at isLine
  rw [whole, byteLength_append, byteLength_append] at short
  obtain ⟨part, covers⟩ := exists_covers_readPiece tag (by omega)
  exact ⟨{
    before := earlier
    lead := lead (before.flatMap Piece.source)
    tag := (readPiece rest).1.source
    part
    later := (readPiece rest).2
    here := '{' :: here
    after := afterLine
    split := by rw [← start, whole]
    describes := by rwa [← start]
    covers
    isLine
    opens := ⟨here, rfl⟩ }⟩

end Stencil.Token
