import Stencil.Proofs.Token.Content

/-!
Where a tag ends. A terminator is found by looking for its characters at each place in turn, so
it is found across a body in which nothing is in its way.
-/

namespace Stencil.Token

theorem after?_append (start text : List Char) :
    after? start (start ++ text) = some text := by
  induction start with
  | nil => rfl
  | cons c start inductionHypothesis =>
      rw [List.cons_append, after?, if_pos rfl, inductionHypothesis]

theorem after?_eq_none_iff {start text : List Char} :
    after? start text = none ↔ ¬ start <+: text := by
  constructor
  · rintro missing ⟨rest, equal⟩
    rw [← equal, after?_append] at missing
    exact nomatch missing
  · intro different
    cases found : after? start text with
    | none => rfl
    | some rest => exact absurd ⟨rest, (after?_tiles found).symm⟩ different

theorem terminator?_eq_none_iff {terminators : List Terminator} {text : List Char} :
    terminator? terminators text = none ↔
      ∀ terminator ∈ terminators, ¬ terminator.text <+: text := by
  induction terminators with
  | nil => simp [terminator?]
  | cons first others inductionHypothesis =>
      rw [terminator?, List.forall_mem_cons, ← inductionHypothesis, ← after?_eq_none_iff]
      cases after? first.text text with
      | none => simp
      | some rest => simp

theorem opensTag_iff {text : List Char} :
    opensTag text = true ↔ ['{', '{'] <+: text := by
  constructor
  · intro opens
    unfold opensTag at opens
    split at opens
    · exact ⟨_, rfl⟩
    · exact Bool.noConfusion opens
  · rintro ⟨rest, equal⟩
    rw [← equal]
    rfl

/-- What a text starts with ends before a character that is foreign to it. -/
theorem prefix_of_prefix_append_cons
    {start body rest : List Char} {c : Char} (starts : start <+: body ++ c :: rest)
    (foreign : c ∉ start) :
    start <+: body := by
  induction body generalizing start with
  | nil =>
      cases start with
      | nil => exact List.nil_prefix
      | cons d start =>
          rw [List.nil_append, List.cons_prefix_cons] at starts
          exact absurd (by rw [starts.1]; exact List.mem_cons_self) foreign
  | cons b body inductionHypothesis =>
      cases start with
      | nil => exact List.nil_prefix
      | cons d start =>
          rw [List.cons_append, List.cons_prefix_cons] at starts
          rw [List.cons_prefix_cons]
          exact ⟨starts.1, inductionHypothesis starts.2 fun member =>
            foreign (List.mem_cons_of_mem d member)⟩

theorem pair_infix_append_cons
    {pair other : Char} {first second : List Char} (different : other ≠ pair)
    (inside : [pair, pair] <:+: first ++ other :: second) :
    [pair, pair] <:+: first ∨ [pair, pair] <:+: second := by
  have foreign : other ∉ [pair, pair] := by simp [different]
  induction first with
  | nil =>
      rw [List.nil_append, List.infix_cons_iff] at inside
      rcases inside with starts | inside
      · exact absurd (List.cons_prefix_cons.mp starts).1.symm different
      · exact .inr inside
  | cons c rest inductionHypothesis =>
      rw [List.cons_append, List.infix_cons_iff] at inside
      rcases inside with starts | inside
      · rw [← List.cons_append] at starts
        exact .inl (prefix_of_prefix_append_cons starts foreign).isInfix
      · rcases inductionHypothesis inside with inside | inside
        · exact .inl (inside.trans (List.suffix_cons c rest).isInfix)
        · exact .inr inside

theorem upToTag_of_opensTag {text : List Char} (opens : opensTag text = true) :
    upToTag text = ([], text) := by
  cases text with
  | nil => rfl
  | cons c rest => rw [upToTag, if_pos opens]

theorem upToTag_cons
    {c : Char} {rest : List Char} (closed : ¬ opensTag (c :: rest) = true) :
    upToTag (c :: rest) = (c :: (upToTag rest).1, (upToTag rest).2) := by
  rw [upToTag, if_neg closed]

theorem upToTag_append
    {run rest : List Char} (clear : ¬ ['{', '{'] <:+: run)
    (seam : rest = [] ∨ opensTag rest = true ∧ run.getLast? ≠ some '{') :
    upToTag (run ++ rest) = (run, rest) := by
  induction run with
  | nil =>
      rcases seam with rfl | ⟨opens, _⟩
      · rfl
      · exact upToTag_of_opensTag opens
  | cons c run inductionHypothesis =>
      have closed : ¬ opensTag (c :: (run ++ rest)) = true := by
        intro opens
        have starts := opensTag_iff.mp opens
        cases run with
        | nil =>
            rcases seam with rfl | ⟨_, notLast⟩
            · exact clear starts.isInfix
            · rw [← (List.cons_prefix_cons.mp starts).1] at notLast
              exact notLast rfl
        | cons d run =>
            apply clear
            rw [List.cons_append, List.cons_prefix_cons, List.cons_prefix_cons] at starts
            rw [← starts.1, ← starts.2.1]
            exact (List.prefix_append ['{', '{'] run).isInfix
      have restRun := inductionHypothesis
        (fun inside => clear (inside.trans (List.suffix_cons c run).isInfix)) (by
          rcases seam with empty | ⟨opens, notLast⟩
          · exact .inl empty
          · refine .inr ⟨opens, ?_⟩
            intro last
            apply notLast
            rw [List.getLast?_cons, last]
            rfl)
      rw [List.cons_append, upToTag_cons closed, restRun]

section Steps

variable {form : Form} {c : Char} {rest body after : List Char} {terminator : Terminator}

theorem cut_of_terminator
    (here : terminator? form.terminators (c :: rest) = some (terminator, after)) :
    cut form (c :: rest) = some ([], terminator, after) := by
  rw [cut, here]

theorem cut_of_tag
    (missing : terminator? form.terminators (c :: rest) = none)
    (opens : (!form.isRemark && opensTag (c :: rest)) = true) :
    cut form (c :: rest) = none := by
  rw [cut, missing]
  simp only [opens, if_true]

theorem cut_of_body
    (missing : terminator? form.terminators (c :: rest) = none)
    (closed : (!form.isRemark && opensTag (c :: rest)) = false) :
    cut form (c :: rest) =
      (cut form rest).map fun (body, terminator, after) => (c :: body, terminator, after) := by
  rw [cut, missing]
  simp only [closed, Bool.false_eq_true, if_false]

/-- A terminator that is found is here or further on. -/
theorem cut_cases (found : cut form (c :: rest) = some (body, terminator, after)) :
    (body = [] ∧ terminator? form.terminators (c :: rest) = some (terminator, after)) ∨
      ∃ inner,
        body = c :: inner ∧ terminator? form.terminators (c :: rest) = none ∧
          (!form.isRemark && opensTag (c :: rest)) = false ∧
          cut form rest = some (inner, terminator, after) := by
  cases here : terminator? form.terminators (c :: rest) with
  | some result =>
      rw [cut_of_terminator here] at found
      obtain ⟨nothing, same⟩ := Prod.mk.inj (Option.some.inj found)
      exact .inl ⟨nothing.symm, congrArg some same⟩
  | none =>
      cases opens : !form.isRemark && opensTag (c :: rest) with
      | true =>
          rw [cut_of_tag here opens] at found
          exact nomatch found
      | false =>
          rw [cut_of_body here opens, Option.map_eq_some_iff] at found
          obtain ⟨⟨inner, _, _⟩, later, same⟩ := found
          obtain ⟨grown, kept⟩ := Prod.mk.inj same
          rw [Prod.mk.injEq] at kept
          obtain ⟨rfl, rfl⟩ := kept
          exact .inr ⟨inner, grown.symm, rfl, rfl, later⟩

theorem cut_eq_none_cases (missed : cut form (c :: rest) = none) :
    terminator? form.terminators (c :: rest) = none ∧
      ((!form.isRemark && opensTag (c :: rest)) = true ∨
        (!form.isRemark && opensTag (c :: rest)) = false ∧ cut form rest = none) := by
  cases here : terminator? form.terminators (c :: rest) with
  | some result =>
      rw [cut_of_terminator here] at missed
      exact nomatch missed
  | none =>
      refine ⟨rfl, ?_⟩
      cases opens : !form.isRemark && opensTag (c :: rest) with
      | true => exact .inl rfl
      | false =>
          rw [cut_of_body here opens, Option.map_eq_none_iff] at missed
          exact .inr ⟨rfl, missed⟩

end Steps

/-- A terminator is found after a body that holds none, if a character stands before it that is
foreign to all of them and to the opening of a tag. -/
theorem cut_append
    {form : Form} {body after : List Char} {terminator : Terminator} {last : Char}
    (here : terminator? form.terminators (terminator.text ++ after) = some (terminator, after))
    (nonempty : terminator.text ≠ [])
    (foreign : ∀ other ∈ form.terminators, last ∉ other.text) (noBrace : last ≠ '{')
    (clear : ∀ other ∈ form.terminators, ¬ other.text <:+: body)
    (closed : form.isRemark = false → ¬ ['{', '{'] <:+: body) :
    cut form (body ++ last :: (terminator.text ++ after)) =
      some (body ++ [last], terminator, after) := by
  have ending : cut form (terminator.text ++ after) = some ([], terminator, after) := by
    obtain ⟨c, rest, equal⟩ := List.exists_cons_of_ne_nil nonempty
    rw [equal, List.cons_append] at here ⊢
    exact cut_of_terminator here
  induction body with
  | nil =>
      rw [List.nil_append, List.nil_append, cut_of_body, ending]
      · rfl
      · rw [terminator?_eq_none_iff]
        intro other member starts
        have empty := List.prefix_nil.mp
          (prefix_of_prefix_append_cons (List.nil_append _ ▸ starts) (foreign other member))
        exact clear other member (empty ▸ List.nil_infix)
      · rw [Bool.and_eq_false_iff]
        right
        rw [Bool.eq_false_iff]
        intro opens
        exact noBrace (List.cons_prefix_cons.mp (opensTag_iff.mp opens)).1.symm
  | cons c body inductionHypothesis =>
      have rest := inductionHypothesis
        (fun other member inside =>
          clear other member (inside.trans (List.suffix_cons c body).isInfix))
        (fun plain inside => closed plain (inside.trans (List.suffix_cons c body).isInfix))
      rw [List.cons_append, cut_of_body, rest]
      · rfl
      · rw [terminator?_eq_none_iff]
        intro other member starts
        rw [← List.cons_append] at starts
        exact clear other member
          (prefix_of_prefix_append_cons starts (foreign other member)).isInfix
      · rw [Bool.and_eq_false_iff]
        cases remark : form.isRemark with
        | true => exact .inl rfl
        | false =>
            right
            rw [Bool.eq_false_iff]
            intro opens
            have starts := opensTag_iff.mp opens
            rw [← List.cons_append] at starts
            exact closed remark
              (prefix_of_prefix_append_cons starts (by simp [noBrace])).isInfix

section Tags

variable {text rest body after : List Char} {opening : Opening} {terminator : Terminator}

theorem readTag_of_cut
    (opened : readOpening text = (opening, rest))
    (found : cut opening.form rest = some (body, terminator, after)) :
    readTag text = (tagPiece opening body terminator, after) := by
  simp only [readTag, opened, found]

theorem readTag_of_remark
    (opened : readOpening text = (opening, rest)) (missed : cut opening.form rest = none)
    (remark : opening.form.isRemark = true) :
    readTag text = (⟨.unterminatedComment, [], .unmarked, opening.text ++ rest⟩, []) := by
  simp only [readTag, opened, missed, remark, if_true]

theorem readTag_of_no_remark
    (opened : readOpening text = (opening, rest)) (missed : cut opening.form rest = none)
    (plain : opening.form.isRemark = false) :
    readTag text =
      (⟨.unterminatedTag, [], .unmarked, opening.text ++ (upToTag rest).1⟩,
        (upToTag rest).2) := by
  simp only [readTag, opened, missed, plain, Bool.false_eq_true, if_false]

end Tags

end Stencil.Token
