import Stencil.Proofs.Token.Cut

/-!
Sources laid end to end. Where the first one ends with a complete tag, what follows has no say
in how it is cut: a terminator that reached into what follows would have to reach across the one
that was found, and it is too short for that.
-/

namespace Stencil.Token

theorem two_le_length_terminator (form : Form) :
    ∀ terminator ∈ form.terminators, 2 ≤ terminator.text.length := by
  cases form <;> decide

private theorem length_terminator_le (form : Form) :
    ∀ first ∈ form.terminators, ∀ second ∈ form.terminators,
      second.text.length ≤ first.text.length + 1 := by
  cases form <;> decide

private theorem eq_of_terminator_start (form : Form) :
    ∀ first ∈ form.terminators, ∀ second ∈ form.terminators,
      first.text <+: second.text → first = second := by
  cases form <;> decide

private theorem brace_not_mem_terminator (form : Form) :
    ∀ terminator ∈ form.terminators, '{' ∉ terminator.text := by
  cases form <;> decide

theorem mem_of_terminator?
    {terminators : List Terminator} {text after : List Char} {terminator : Terminator}
    (found : terminator? terminators text = some (terminator, after)) :
    terminator ∈ terminators := by
  induction terminators with
  | nil => exact nomatch found
  | cons first others inductionHypothesis =>
      unfold terminator? at found
      split at found
      · rw [(Prod.mk.inj (Option.some.inj found)).1]
        exact List.mem_cons_self
      · exact List.mem_cons_of_mem first (inductionHypothesis found)

theorem mem_of_cut
    {form : Form} {text body after : List Char} {terminator : Terminator}
    (found : cut form text = some (body, terminator, after)) :
    terminator ∈ form.terminators := by
  induction text generalizing body with
  | nil => exact nomatch found
  | cons c rest inductionHypothesis =>
      rcases cut_cases found with ⟨_, here⟩ | ⟨_, _, _, _, later⟩
      · exact mem_of_terminator? here
      · exact inductionHypothesis later

private theorem terminator?_append
    {terminators : List Terminator}
    (apart : ∀ first ∈ terminators, ∀ second ∈ terminators,
      first.text <+: second.text → first = second)
    {text after : List Char} {terminator : Terminator}
    (found : terminator? terminators text = some (terminator, after)) (more : List Char) :
    terminator? terminators (text ++ more) = some (terminator, after ++ more) := by
  induction terminators with
  | nil => exact nomatch found
  | cons first others inductionHypothesis =>
      have later : terminator ∈ first :: others := mem_of_terminator? found
      unfold terminator? at found ⊢
      cases here : after? first.text text with
      | some rest =>
          rw [here] at found
          obtain ⟨rfl, rfl⟩ : first = terminator ∧ rest = after := by simpa using found
          rw [after?_tiles here, List.append_assoc, after?_append]
      | none =>
          rw [here] at found
          have missing : after? first.text (text ++ more) = none := by
            rw [after?_eq_none_iff] at here ⊢
            intro starts
            have foundStarts : terminator.text <+: text :=
              ⟨after, (terminator?_tiles found).symm⟩
            have foundLater := foundStarts.trans (List.prefix_append text more)
            by_cases shorter : first.text.length ≤ terminator.text.length
            · have inside := List.prefix_of_prefix_length_le starts foundLater shorter
              exact here (inside.trans foundStarts)
            · have inside := List.prefix_of_prefix_length_le foundLater starts (by omega)
              have same := apart terminator later first List.mem_cons_self inside
              exact here (same ▸ foundStarts)
          rw [missing]
          exact inductionHypothesis
            (fun one oneMember other otherMember =>
              apart one (List.mem_cons_of_mem first oneMember) other
                (List.mem_cons_of_mem first otherMember)) found

private theorem opensTag_append
    {text : List Char} (long : 2 ≤ text.length) (more : List Char) :
    opensTag (text ++ more) = opensTag text := by
  obtain ⟨c, d, rest, rfl⟩ : ∃ c d rest, text = c :: d :: rest := by
    match text, long with
    | c :: d :: rest, _ => exact ⟨c, d, rest, rfl⟩
  rw [Bool.eq_iff_iff, opensTag_iff, opensTag_iff]
  simp only [List.cons_append, List.cons_prefix_cons, List.nil_prefix]

private theorem cut_append_of_found
    {form : Form} {text body after : List Char} {terminator : Terminator}
    (found : cut form text = some (body, terminator, after)) (more : List Char) :
    cut form (text ++ more) = some (body, terminator, after ++ more) := by
  induction text generalizing body with
  | nil => exact nomatch found
  | cons c rest inductionHypothesis =>
      have member := mem_of_cut found
      have positive := two_le_length_terminator form _ member
      have length := congrArg List.length (cut_tiles found)
      simp only [List.length_append] at length
      rcases cut_cases found with ⟨rfl, here⟩ | ⟨inner, rfl, here, unopened, later⟩
      · exact cut_of_terminator (terminator?_append (eq_of_terminator_start form) here more)
      · -- A terminator that starts here would reach beyond the one that was found.
        have missing : terminator? form.terminators (c :: rest ++ more) = none := by
          rw [terminator?_eq_none_iff] at here ⊢
          intro other otherMember starts
          have bound := length_terminator_le form _ member other otherMember
          apply here other otherMember
          refine List.prefix_of_prefix_length_le starts
            (List.prefix_append (c :: rest) more) ?_
          simp only [List.length_cons] at length ⊢
          omega
        have closed : (!form.isRemark && opensTag (c :: rest ++ more)) = false := by
          rw [opensTag_append (by omega)]
          exact unopened
        rw [List.cons_append] at missing closed ⊢
        rw [cut_of_body missing closed, inductionHypothesis later]
        rfl

theorem opensTag_upToTag
    {text : List Char} (tag : (upToTag text).2 ≠ []) :
    opensTag (upToTag text).2 = true := by
  induction text with
  | nil => exact absurd rfl tag
  | cons c rest inductionHypothesis =>
      by_cases opens : opensTag (c :: rest) = true
      · rwa [upToTag_of_opensTag opens]
      · rw [upToTag_cons opens] at tag ⊢
        exact inductionHypothesis tag

private theorem two_le_length_of_upToTag
    {text : List Char} (tag : (upToTag text).2 ≠ []) :
    2 ≤ text.length := by
  have braces := (opensTag_iff.mp (opensTag_upToTag tag)).length_le
  have tiles := congrArg List.length (upToTag_tiles text)
  simp only [List.length_append, List.length_cons, List.length_nil] at braces tiles
  omega

private theorem brace_mem_of_upToTag
    {text : List Char} (tag : (upToTag text).2 ≠ []) :
    '{' ∈ text := by
  have starts := opensTag_iff.mp (opensTag_upToTag tag)
  rw [← upToTag_tiles text]
  exact List.mem_append_right _ (starts.subset List.mem_cons_self)

private theorem upToTag_append_of_tag
    {text : List Char} (tag : (upToTag text).2 ≠ []) (more : List Char) :
    upToTag (text ++ more) = ((upToTag text).1, (upToTag text).2 ++ more) := by
  induction text with
  | nil => exact absurd rfl tag
  | cons c rest inductionHypothesis =>
      have same := opensTag_append (two_le_length_of_upToTag tag) more
      by_cases opens : opensTag (c :: rest) = true
      · rw [List.cons_append] at same ⊢
        rw [upToTag_of_opensTag (same.trans opens), upToTag_of_opensTag opens, List.cons_append]
      · rw [List.cons_append] at same ⊢
        rw [upToTag_cons opens] at tag
        rw [upToTag_cons (by rw [same]; exact opens), upToTag_cons opens,
          inductionHypothesis tag]

private theorem cut_append_of_tag
    {form : Form} (plain : form.isRemark = false) {text : List Char}
    (missed : cut form text = none) (tag : (upToTag text).2 ≠ []) (more : List Char) :
    cut form (text ++ more) = none := by
  induction text with
  | nil => exact absurd rfl tag
  | cons c rest inductionHypothesis =>
      have brace := brace_mem_of_upToTag tag
      have long := two_le_length_of_upToTag tag
      obtain ⟨here, rest'⟩ := cut_eq_none_cases missed
      -- No terminator holds a brace, so none reaches across the next tag.
      have missing : terminator? form.terminators (c :: rest ++ more) = none := by
        rw [terminator?_eq_none_iff] at here ⊢
        intro other member starts
        by_cases shorter : other.text.length ≤ (c :: rest).length
        · exact here other member (List.prefix_of_prefix_length_le starts
            (List.prefix_append (c :: rest) more) shorter)
        · have inside := List.prefix_of_prefix_length_le
            (List.prefix_append (c :: rest) more) starts (by omega)
          exact brace_not_mem_terminator form other member (inside.subset brace)
      have same := opensTag_append long more
      rw [List.cons_append] at missing same ⊢
      rcases rest' with opens | ⟨closed, later⟩
      · exact cut_of_tag missing (by rw [same]; exact opens)
      · rw [plain, Bool.not_false, Bool.true_and] at closed
        rw [upToTag_cons (Bool.eq_false_iff.mp closed)] at tag
        rw [cut_of_body missing (by rw [same, closed, Bool.and_false]),
          inductionHypothesis later tag]
        rfl

/-! ## Tags -/

private theorem readMarks_append
    {text : List Char} (nonempty : (readMarks text).2 ≠ []) (more : List Char) :
    readMarks (text ++ more) = ((readMarks text).1, (readMarks text).2 ++ more) := by
  fun_cases readMarks text with
  | case1 rest => rfl
  | case2 rest noBrace =>
      cases rest with
      | nil => exact absurd rfl nonempty
      | cons d rest =>
          have different : d ≠ '{' := by
            rintro rfl
            exact noBrace rest rfl
          simp [readMarks, different]
  | case3 rest => rfl
  | case4 rest noMark =>
      cases rest with
      | nil => exact absurd rfl nonempty
      | cons d rest =>
          have different : d ≠ '~' := by
            rintro rfl
            exact noMark rest rfl
          simp [readMarks, different]
  | case5 text _ noMark _ noBrace =>
      cases text with
      | nil => exact absurd rfl nonempty
      | cons c rest =>
          have noMark' : c ≠ '~' := by
            rintro rfl
            exact noMark rest rfl
          have noBrace' : c ≠ '{' := by
            rintro rfl
            exact noBrace rest rfl
          simp [readMarks, noMark', noBrace']

private theorem readSign_append
    {text : List Char} (long : 2 ≤ (readSign text).2.length) (more : List Char) :
    readSign (text ++ more) = ((readSign text).1, (readSign text).2 ++ more) := by
  fun_cases readSign text with
  | case1 rest => rfl
  | case2 rest noRemark =>
      have read : (readSign ('!' :: rest)).2 = rest := by
        rw [readSign]
        exact noRemark
      rw [read] at long
      match rest, long with
      | c :: d :: rest, _ =>
          have different : ¬ (c = '-' ∧ d = '-') := by
            rintro ⟨rfl, rfl⟩
            exact noRemark rest rfl
          simp only [List.cons_append]
          rw [readSign]
          intro later same
          obtain ⟨first, others⟩ := List.cons.inj same
          exact different ⟨first, (List.cons.inj others).1⟩
  | case3 text _ noRemark =>
      cases text with
      | nil => exact absurd long (by decide)
      | cons c rest =>
          have different : c ≠ '!' := by
            rintro rfl
            exact noRemark rest rfl
          simp [readSign, different]

private theorem readOpening_append
    {text : List Char} (long : 2 ≤ (readOpening text).2.length) (more : List Char) :
    readOpening (text ++ more) = ((readOpening text).1, (readOpening text).2 ++ more) := by
  have marks : readMarks (text ++ more) = ((readMarks text).1, (readMarks text).2 ++ more) := by
    refine readMarks_append ?_ more
    intro empty
    simp only [readOpening, empty] at long
    split at long <;> simp [readSign] at long
  simp only [readOpening, marks] at long ⊢
  by_cases raw : (readMarks text).1.raw = true
  · simp only [raw, if_true] at long ⊢
  · simp only [raw, Bool.false_eq_true, if_false] at long ⊢
    rw [readSign_append long more]

private theorem readTag_append
    {text : List Char}
    (closed : (readTag text).1.kind.isCompleteTag = true ∨ (readTag text).2 ≠ [])
    (more : List Char) :
    readTag (text ++ more) = ((readTag text).1, (readTag text).2 ++ more) := by
  cases found : cut (readOpening text).1.form (readOpening text).2 with
  | some result =>
      obtain ⟨body, terminator, after⟩ := result
      have long : 2 ≤ (readOpening text).2.length := by
        have positive := two_le_length_terminator _ _ (mem_of_cut found)
        have tiles := congrArg List.length (cut_tiles found)
        simp only [List.length_append] at tiles
        omega
      simp only [readTag, readOpening_append long, cut_append_of_found found, found]
  | none =>
      cases remark : (readOpening text).1.form.isRemark with
      | true =>
          simp only [readTag, found, remark, if_true] at closed
          rcases closed with complete | some
          · exact Bool.noConfusion complete
          · exact absurd rfl some
      | false =>
          simp only [readTag, found, remark, Bool.false_eq_true, if_false] at closed
          have tag : (upToTag (readOpening text).2).2 ≠ [] := by
            rcases closed with complete | some
            · exact Bool.noConfusion complete
            · exact some
          have long := two_le_length_of_upToTag tag
          simp only [readTag, readOpening_append long, cut_append_of_tag remark found tag,
            upToTag_append_of_tag tag, found, remark, Bool.false_eq_true, if_false]

/-- A piece that is a complete tag, or has something after it, does not depend on what follows
the source. -/
theorem readPiece_append
    {text : List Char}
    (closed : (readPiece text).1.kind.isCompleteTag = true ∨ (readPiece text).2 ≠ [])
    (more : List Char) :
    readPiece (text ++ more) = ((readPiece text).1, (readPiece text).2 ++ more) := by
  fun_cases readPiece text with
  | case1 rest => exact readTag_append closed more
  | case2 text noTag run after upTo =>
      have read : readPiece text = (⟨.text, run, .unmarked, run⟩, after) := by
        rw [readPiece, upTo]
        exact noTag
      rw [read] at closed
      have tag : (upToTag text).2 ≠ [] := by
        rw [upTo]
        rcases closed with complete | some
        · exact Bool.noConfusion complete
        · exact some
      have long := two_le_length_of_upToTag tag
      rw [readPiece, upToTag_append_of_tag tag, upTo]
      intro tail same
      have opens : opensTag (text ++ more) = true := by rw [same]; rfl
      rw [opensTag_append long, opensTag_iff] at opens
      obtain ⟨rest, split⟩ := opens
      exact noTag rest split.symm

theorem pieces_append
    {text : List Char}
    (closed : ∀ piece, (pieces text).getLast? = some piece → piece.kind.isCompleteTag = true)
    (more : List Char) :
    pieces (text ++ more) = pieces text ++ pieces more := by
  fun_induction pieces text with
  | case1 => rfl
  | case2 text nonempty inductionHypothesis =>
      by_cases last : (readPiece text).2 = []
      · rw [last, pieces_nil] at closed ⊢
        have complete := closed _ rfl
        have read := readPiece_append (.inl complete) more
        rw [last, List.nil_append] at read
        rw [pieces_of_ne_nil (List.append_ne_nil_of_left_ne_nil nonempty more), read]
        rfl
      · have read := readPiece_append (.inr last) more
        rw [pieces_of_ne_nil (List.append_ne_nil_of_left_ne_nil nonempty more), read,
          List.cons_append]
        rw [inductionHypothesis]
        intro piece found
        apply closed
        rw [List.getLast?_cons, found]
        rfl

end Stencil.Token
