import Stencil.Proofs.Text.Blank
import Stencil.Proofs.Token.Delimiters

/-!
Where the tags of a source end, which of them are marked for trimming, and where the source goes
on after those that could not be delimited.
-/

namespace Stencil.Token

private theorem classify_within (body : List Char) : (classify body).2 <:+: body := by
  have signed (sign : Char) (rest : List Char) : Text.trim rest <:+: sign :: rest :=
    (Text.trim_within rest).trans (List.suffix_cons sign rest).isInfix
  unfold classify
  split
  · exact signed '#' _
  · exact signed '/' _
  · exact signed '>' _
  · exact signed '&' _
  · exact signed '^' _
  · exact List.nil_infix
  · exact List.infix_refl body

private theorem interpret_within (form : Form) (body : List Char) :
    (interpret form body).2 <:+: body := by
  cases form with
  | plain => exact (classify_within (Text.trim body)).trans (Text.trim_within body)
  | raw => exact Text.trim_within body
  | remark => exact Text.trim_within body
  | longRemark => exact Text.trim_within body

private theorem interpret_comment_iff (form : Form) (body : List Char) :
    (interpret form body).1 = .comment ↔ form.isRemark = true := by
  cases form with
  | plain =>
      have notComment : (classify (Text.trim body)).1 ≠ .comment := by
        unfold classify
        split <;> simp
      simpa [interpret, Form.isRemark] using notComment
  | raw => simp [interpret, Form.isRemark]
  | remark => simp [interpret, Form.isRemark]
  | longRemark => simp [interpret, Form.isRemark]

section Ends

variable {form : Form} {body : List Char} {terminator : Terminator}

private theorem readEnd_starts : (readEnd form body terminator).1 <+: body := by
  unfold readEnd
  split
  · exact List.dropLast_prefix body
  · exact List.prefix_refl body

private theorem terminator_marked_iff (form : Form) :
    ∀ terminator ∈ form.terminators,
      (terminator.marked = true ↔
        terminator.text = ['}', '~', '}', '}'] ∨
          terminator.text = ['-', '-', '~', '}', '}']) := by
  cases form <;> decide

private theorem marksBody_iff : form.marksBody = true ↔ form ≠ .longRemark := by
  cases form <;> decide

private theorem readEnd_marked_iff :
    (readEnd form body terminator).2 = true ↔
      terminator.marked = true ∨ form ≠ .longRemark ∧ body.getLast? = some '~' := by
  have condition : (form.marksBody && body.getLast? == some '~') = true ↔
      form ≠ .longRemark ∧ body.getLast? = some '~' := by
    rw [Bool.and_eq_true, marksBody_iff, beq_iff_eq]
  by_cases marked : (form.marksBody && body.getLast? == some '~') = true
  · rw [readEnd, if_pos marked]
    exact ⟨fun _ => .inr (condition.mp marked), fun _ => rfl⟩
  · rw [readEnd, if_neg marked]
    exact ⟨.inl, fun either => either.resolve_right fun both => marked (condition.mpr both)⟩

end Ends

/-- What is read off a tag that ends with a terminator at an offset after its opening, and where
the source goes on. -/
structure EndsAt (text : List Char) (form : Form) (rest : List Char) (token : Token)
    (next : List Char) (offset : Nat) (terminator : Terminator) : Prop where
  first : FirstAt form.endings rest offset
  listed : terminator ∈ form.terminators
  found : terminator.text <+: rest.drop offset
  resumed : next = rest.drop (offset + terminator.text.length)
  lexeme : token.lexeme.toList <:+: rest.take offset
  comment_iff : token.kind = .comment ↔ form.isRemark = true
  raw : form = .raw → token.kind = .raw
  left_iff : token.trim.left = true ↔ ['~'] <+: text ∨ ['{', '~'] <+: text
  right_iff : token.trim.right = true ↔
    terminator.text = ['}', '~', '}', '}'] ∨ terminator.text = ['-', '-', '~', '}', '}'] ∨
      form ≠ .longRemark ∧ (rest.take offset).getLast? = some '~'

/-- What is read off the text after the two braces of a tag, of which an opening of a form leaves
the rest, and where the source goes on. -/
structure Delimited (text : List Char) (form : Form) (rest : List Char) (token : Token)
    (next : List Char) : Prop where
  unterminatedTag_iff : token.kind = .unterminatedTag ↔
    form.isRemark = false ∧
      ((∀ ending ∈ form.endings, ¬ ending <:+: rest) ∨
        ∃ offset, FirstAt form.endings rest offset ∧
          ∃ earlier < offset, braces <+: rest.drop earlier)
  unterminatedComment_iff : token.kind = .unterminatedComment ↔
    form.isRemark = true ∧ ∀ ending ∈ form.endings, ¬ ending <:+: rest
  resumed : token.kind = .unterminatedTag →
    (∃ offset, FirstAt [braces] rest offset ∧ next = rest.drop offset) ∨
      ¬ braces <:+: rest ∧ next = []
  swallowed : token.kind = .unterminatedComment → next = []
  unmarked : token.kind.fault?.isSome = true → token.trim = .unmarked
  ended : token.kind.fault?.isSome = false →
    ∃ offset terminator, EndsAt text form rest token next offset terminator

section Reading

variable {text rest : List Char} {opening : Opening}

private theorem endsAt_of_cut
    (opened : readOpening text = (opening, rest)) {body after : List Char}
    {terminator : Terminator} (found : cut opening.form rest = some (body, terminator, after))
    (place : Position) :
    EndsAt text opening.form rest ((tagPiece opening body terminator).token place) after
      body.length terminator := by
  have tiles := cut_tiles found
  have member := mem_of_cut found
  have take : rest.take body.length = body := by
    rw [tiles, List.append_assoc, List.take_left]
  have drop : rest.drop body.length = terminator.text ++ after := by
    rw [tiles, List.append_assoc, List.drop_left]
  refine ⟨(firstAt_of_cut found).1, member, ?_, ?_, ?_, ?_, ?_, ?_, ?_⟩
  · rw [drop]
    exact List.prefix_append _ _
  · rw [← List.drop_drop, drop, List.drop_left]
  · rw [take, Piece.token, String.toList_ofList]
    exact (interpret_within _ _).trans readEnd_starts.isInfix
  · exact interpret_comment_iff _ _
  · intro raw
    rw [Piece.token, tagPiece, raw]
    rfl
  · have marked := readOpening_marked_iff text
    rwa [opened] at marked
  · rw [take, ← or_assoc, ← terminator_marked_iff _ terminator member]
    exact readEnd_marked_iff

/-- A tag is delimited, or unterminated, as the terminators of its form tell. -/
theorem delimited_readTag
    (opened : readOpening text = (opening, rest)) (place : Position) :
    Delimited text opening.form rest ((readTag text).1.token place) (readTag text).2 := by
  cases found : cut opening.form rest with
  | some result =>
      obtain ⟨body, terminator, after⟩ := result
      have ends := endsAt_of_cut opened found place
      have delimited : ¬ cut opening.form rest = none := by simp [found]
      rw [cut_eq_none_iff, not_or] at delimited
      have complete := tagPiece_isCompleteTag opening body terminator
      rw [Kind.isCompleteTag, Bool.and_eq_true, Option.isNone_iff_eq_none] at complete
      rw [readTag_of_cut opened found]
      have faultless (kind : Kind) (faulty : kind.fault? ≠ none) :
          (tagPiece opening body terminator).kind ≠ kind := by
        intro same
        rw [same] at complete
        exact faulty complete.2
      have noTag := faultless .unterminatedTag (by decide)
      have noComment := faultless .unterminatedComment (by decide)
      refine ⟨?_, ?_, fun kind => absurd kind noTag, fun kind => absurd kind noComment, ?_, ?_⟩
      · refine ⟨fun kind => absurd kind noTag, ?_⟩
        rintro ⟨plain, absent | reopened⟩
        · exact absurd absent delimited.1
        · exact absurd ⟨plain, reopened⟩ delimited.2
      · exact ⟨fun kind => absurd kind noComment, fun missing => absurd missing.2 delimited.1⟩
      · intro faulty
        rw [Piece.token, complete.2] at faulty
        exact absurd faulty Bool.false_ne_true
      · exact fun _ => ⟨body.length, terminator, ends⟩
  | none =>
      have missing := cut_eq_none_iff.mp found
      cases remark : opening.form.isRemark with
      | true =>
          have absent := missing.resolve_right fun reopened => by simp [remark] at reopened
          rw [readTag_of_remark opened found remark]
          refine ⟨?_, ?_, ?_, fun _ => rfl, fun _ => rfl, ?_⟩
          · simp [Piece.token, remark]
          · exact ⟨fun _ => ⟨remark, absent⟩, fun _ => rfl⟩
          · simp [Piece.token]
          · simp [Piece.token, Kind.fault?]
      | false =>
          rw [readTag_of_no_remark opened found remark]
          refine ⟨?_, ?_, fun _ => upToTag_cases rest, ?_, fun _ => rfl, ?_⟩
          · exact ⟨fun _ => ⟨remark, missing.imp_right And.right⟩, fun _ => rfl⟩
          · simp [Piece.token, remark]
          · simp [Piece.token]
          · simp [Piece.token, Kind.fault?]

end Reading

/-- What is read off the text after the two braces of a tag, and where the source goes on. -/
structure ReadsTag (text : List Char) (token : Token) (next : List Char) : Prop where
  opens : ∃ opening form, OpensWith text opening form
  delimited : ∀ opening form rest, OpensWith text opening form → text = opening ++ rest →
    Delimited text form rest token next

private theorem readsTag_readTag (text : List Char) (place : Position) :
    ReadsTag text ((readTag text).1.token place) (readTag text).2 := by
  obtain ⟨opening, opens, shape⟩ := exists_opensWith_readOpening text
  refine ⟨⟨opening, _, opens⟩, ?_⟩
  intro other form rest otherOpens split
  obtain ⟨rfl, rfl⟩ := opens.unique otherOpens
  have tiles := readOpening_tiles text
  rw [shape, List.append_assoc] at tiles
  have whole : opening ++ (readOpening text).2 = text :=
    List.append_cancel_left (show braces ++ _ = braces ++ text from tiles)
  rw [← List.append_cancel_left (whole.trans split)]
  exact delimited_readTag rfl place

/-- Wherever a tag starts in a source, it ends at the first terminator of its form. -/
theorem readsTag_token
    {source : String} {index : Nat} {text : List Char}
    (atTag : (Scanner.after source index).rest = '{' :: '{' :: text) :
    ReadsTag text (Scanner.token source index) (Scanner.after source (index + 1)).rest := by
  have nonempty : (Scanner.after source index).rest ≠ [] := by simp [atTag]
  have read : readPiece (Scanner.after source index).rest = readTag text := by rw [atTag]; rfl
  rw [Scanner.token, Scanner.after, Scanner.next_of_readPiece nonempty read]
  exact readsTag_readTag text _

/-- A raw tag in which both its terminators start. -/
theorem readsTag_token_raw :
    let source := "\x7b\x7b\x7bx\x7d~\x7d\x7d\x7d"
    let text := ['{', 'x', '}', '~', '}', '}', '}']
    let token : Token := ⟨.raw, "x", ⟨false, true⟩, ⟨⟨1, 1⟩, 8⟩⟩
    (Scanner.after source 0).rest = '{' :: '{' :: text ∧ Scanner.token source 0 = token ∧
      (Scanner.after source 1).rest = ['}'] ∧ ReadsTag text token ['}'] := by
  intro source text token
  have atTag : (Scanner.after source 0).rest = '{' :: '{' :: text := by decide
  have read : Scanner.token source 0 = token := by decide +kernel
  have next : (Scanner.after source 1).rest = ['}'] := by decide +kernel
  have reads := readsTag_token atTag
  rw [read, next] at reads
  exact ⟨atTag, read, next, reads⟩

/-- A tag without an end has no trim mark, whatever follows its braces. -/
theorem unmarked_unterminated :
    let source := "\x7b\x7b~"
    (Scanner.after source 0).rest = '{' :: '{' :: ['~'] ∧
      (Scanner.token source 0).kind = .unterminatedTag ∧
        ¬ ((Scanner.token source 0).trim.left = true ↔
          ['~'] <+: ['~'] ∨ ['{', '~'] <+: ['~']) := by
  intro source
  have unmarked : (Scanner.token source 0).trim.left = false := by decide +kernel
  refine ⟨by decide, by decide +kernel, fun marked => ?_⟩
  rw [unmarked] at marked
  exact Bool.noConfusion (marked.mpr (.inl (List.prefix_refl _)))

end Stencil.Token
