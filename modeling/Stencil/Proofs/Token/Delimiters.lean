import Stencil.Proofs.Token.Tiling

/-!
What delimits a tag, said by the offsets of texts in the source: a tag opens with the longest
opening that there is, and ends at the first of the terminators of its form.
-/

namespace Stencil.Token

/-- Whether one of some texts starts at an offset of a text, and none does before it. -/
def FirstAt (starts : List (List Char)) (text : List Char) (offset : Nat) : Prop :=
  (∃ start ∈ starts, start <+: text.drop offset) ∧
    ∀ earlier < offset, ∀ start ∈ starts, ¬ start <+: text.drop earlier

section Occurrences

variable {starts : List (List Char)} {c : Char} {rest text : List Char}

private theorem firstAt_zero_iff : FirstAt starts text 0 ↔ ∃ start ∈ starts, start <+: text := by
  simp [FirstAt]

private theorem firstAt_cons_succ
    {offset : Nat} (notHere : ∀ start ∈ starts, ¬ start <+: c :: rest)
    (first : FirstAt starts rest offset) : FirstAt starts (c :: rest) (offset + 1) := by
  refine ⟨first.1, ?_⟩
  intro earlier before start member
  cases earlier with
  | zero => exact notHere start member
  | succ earlier => exact first.2 earlier (by omega) start member

theorem FirstAt.unique
    {offset other : Nat} (first : FirstAt starts text offset)
    (second : FirstAt starts text other) : offset = other := by
  obtain ⟨⟨start, member, starts⟩, none⟩ := first
  obtain ⟨⟨otherStart, otherMember, otherStarts⟩, otherNone⟩ := second
  rcases Nat.lt_trichotomy offset other with before | same | after
  · exact absurd starts (otherNone offset before start member)
  · exact same
  · exact absurd otherStarts (none other after otherStart otherMember)

theorem FirstAt.exists_within
    {offset : Nat} (first : FirstAt starts text offset) : ∃ start ∈ starts, start <:+: text := by
  obtain ⟨⟨start, member, here⟩, _⟩ := first
  exact ⟨start, member, here.isInfix.trans (List.drop_suffix offset text).isInfix⟩

private theorem exists_firstAt
    {start : List Char} (member : start ∈ starts) (inside : start <:+: text) :
    ∃ offset, FirstAt starts text offset := by
  induction text with
  | nil =>
      obtain rfl := List.infix_nil.mp inside
      exact ⟨0, firstAt_zero_iff.mpr ⟨[], member, List.nil_prefix⟩⟩
  | cons c rest inductionHypothesis =>
      by_cases here : ∃ start ∈ starts, start <+: c :: rest
      · exact ⟨0, firstAt_zero_iff.mpr here⟩
      · have notHere : ∀ start ∈ starts, ¬ start <+: c :: rest := fun other found starts =>
          here ⟨other, found, starts⟩
        rcases List.infix_cons_iff.mp inside with starts | later
        · exact absurd starts (notHere start member)
        · obtain ⟨offset, first⟩ := inductionHypothesis later
          exact ⟨offset + 1, firstAt_cons_succ notHere first⟩

end Occurrences

def braces : List Char := ['{', '{']

theorem upToTag_cases (text : List Char) :
    (∃ offset, FirstAt [braces] text offset ∧ (upToTag text).2 = text.drop offset) ∨
      ¬ braces <:+: text ∧ (upToTag text).2 = [] := by
  induction text with
  | nil => exact .inr ⟨fun inside => absurd (List.infix_nil.mp inside) (by simp [braces]), rfl⟩
  | cons c rest inductionHypothesis =>
      by_cases opens : opensTag (c :: rest) = true
      · have here : ∃ start ∈ [braces], start <+: c :: rest :=
          ⟨braces, List.mem_singleton_self braces, opensTag_iff.mp opens⟩
        refine .inl ⟨0, firstAt_zero_iff.mpr here, ?_⟩
        rw [upToTag_of_opensTag opens, List.drop_zero]
      · have notHere : ¬ braces <+: c :: rest := fun starts => opens (opensTag_iff.mpr starts)
        rw [upToTag_cons opens]
        rcases inductionHypothesis with ⟨offset, first, later⟩ | ⟨missing, ended⟩
        · refine .inl ⟨offset + 1, firstAt_cons_succ ?_ first, later⟩
          intro start member
          rwa [List.mem_singleton.mp member]
        · refine .inr ⟨?_, ended⟩
          rw [List.infix_cons_iff, not_or]
          exact ⟨notHere, missing⟩

def Form.endings (form : Form) : List (List Char) :=
  form.terminators.map Terminator.text

private theorem not_prefix_of_terminator?
    {form : Form} {text : List Char} (missing : terminator? form.terminators text = none) :
    ∀ ending ∈ form.endings, ¬ ending <+: text := by
  intro ending member
  obtain ⟨terminator, found, rfl⟩ := List.mem_map.mp member
  exact terminator?_eq_none_iff.mp missing terminator found

private theorem ending_ne_nil {form : Form} {ending : List Char} (member : ending ∈ form.endings) :
    ending ≠ [] := by
  obtain ⟨terminator, found, rfl⟩ := List.mem_map.mp member
  have long := two_le_length_terminator form terminator found
  exact List.ne_nil_of_length_pos (by omega)

theorem firstAt_of_cut
    {form : Form} {text body after : List Char} {terminator : Terminator}
    (found : cut form text = some (body, terminator, after)) :
    FirstAt form.endings text body.length ∧
      (form.isRemark = false → ∀ earlier < body.length, ¬ braces <+: text.drop earlier) := by
  induction text generalizing body with
  | nil => exact nomatch found
  | cons c rest inductionHypothesis =>
      rcases cut_cases found with ⟨rfl, here⟩ | ⟨inner, rfl, here, unopened, later⟩
      · refine ⟨firstAt_zero_iff.mpr ⟨terminator.text, ?_, after, ?_⟩, ?_⟩
        · exact List.mem_map_of_mem (mem_of_terminator? here)
        · exact (terminator?_tiles here).symm
        · intro _ earlier before
          exact absurd before (Nat.not_lt_zero earlier)
      · obtain ⟨first, clear⟩ := inductionHypothesis later
        have notHere := not_prefix_of_terminator? here
        refine ⟨firstAt_cons_succ notHere first, ?_⟩
        intro plain earlier before
        cases earlier with
        | zero =>
            intro starts
            have opens : opensTag (c :: rest) = true := opensTag_iff.mpr starts
            rw [plain, opens] at unopened
            exact Bool.noConfusion unopened
        | succ earlier =>
            rw [List.length_cons] at before
            exact clear plain earlier (by omega)

private theorem missing_of_cut
    {form : Form} {text : List Char} (missed : cut form text = none) :
    (∀ ending ∈ form.endings, ¬ ending <:+: text) ∨
      form.isRemark = false ∧
        ∃ offset, FirstAt form.endings text offset ∧
          ∃ earlier < offset, braces <+: text.drop earlier := by
  induction text with
  | nil =>
      exact .inl fun ending member inside =>
        ending_ne_nil member (List.infix_nil.mp inside)
  | cons c rest inductionHypothesis =>
      obtain ⟨here, opened | ⟨_, later⟩⟩ := cut_eq_none_cases missed
      · have notHere := not_prefix_of_terminator? here
        rw [Bool.and_eq_true, Bool.not_eq_true'] at opened
        by_cases absent : ∀ ending ∈ form.endings, ¬ ending <:+: c :: rest
        · exact .inl absent
        · simp only [not_forall, not_not] at absent
          obtain ⟨ending, member, inside⟩ := absent
          obtain ⟨offset, first⟩ := exists_firstAt member inside
          refine .inr ⟨opened.1, offset, first, 0, ?_, opensTag_iff.mp opened.2⟩
          rcases Nat.eq_zero_or_pos offset with rfl | positive
          · obtain ⟨start, startMember, starts⟩ := firstAt_zero_iff.mp first
            exact absurd starts (notHere start startMember)
          · exact positive
      · have notHere := not_prefix_of_terminator? here
        rcases inductionHypothesis later with absent | ⟨plain, offset, first, earlier, before, opens⟩
        · refine .inl fun ending member inside => ?_
          rcases List.infix_cons_iff.mp inside with starts | within
          · exact notHere ending member starts
          · exact absent ending member within
        · exact .inr ⟨plain, offset + 1, firstAt_cons_succ notHere first, earlier + 1,
            by omega, opens⟩

theorem cut_eq_none_iff {form : Form} {text : List Char} :
    cut form text = none ↔
      (∀ ending ∈ form.endings, ¬ ending <:+: text) ∨
        form.isRemark = false ∧
          ∃ offset, FirstAt form.endings text offset ∧
            ∃ earlier < offset, braces <+: text.drop earlier := by
  refine ⟨missing_of_cut, fun missing => ?_⟩
  cases found : cut form text with
  | none => rfl
  | some result =>
      obtain ⟨first, clear⟩ := firstAt_of_cut found
      rcases missing with absent | ⟨plain, offset, other, earlier, before, opens⟩
      · obtain ⟨ending, member, inside⟩ := first.exists_within
        exact absurd inside (absent ending member)
      · rw [other.unique first] at before
        exact absurd opens (clear plain earlier before)

/-! ## Openings of tags -/

/-- What may follow the two braces of a tag, before its body. -/
def Form.openings : Form → List (List Char)
  | .plain => [[], ['~']]
  | .raw => [['{'], ['~', '{'], ['{', '~']]
  | .remark => [['!'], ['~', '!']]
  | .longRemark => [['!', '-', '-'], ['~', '!', '-', '-']]

/-- Whether what follows the two braces of a tag is an opening of a form: the longest there is. -/
structure OpensWith (text opening : List Char) (form : Form) : Prop where
  listed : opening ∈ form.openings
  starts : opening <+: text
  longest : ∀ otherForm, ∀ other ∈ Form.openings otherForm, other <+: text →
    other.length ≤ opening.length

private theorem form_eq_of_mem_openings (form other : Form) :
    ∀ opening ∈ form.openings, opening ∈ other.openings → form = other := by
  cases form <;> cases other <;> decide

theorem OpensWith.unique
    {text opening other : List Char} {form otherForm : Form}
    (first : OpensWith text opening form) (second : OpensWith text other otherForm) :
    opening = other ∧ form = otherForm := by
  have shorter := first.longest otherForm other second.listed second.starts
  have longer := second.longest form opening first.listed first.starts
  have inside := List.prefix_of_prefix_length_le first.starts second.starts longer
  obtain rfl := inside.eq_of_length (Nat.le_antisymm longer shorter)
  exact ⟨rfl, form_eq_of_mem_openings form otherForm opening first.listed second.listed⟩

private theorem readMarks_cases (text : List Char) :
    (∃ rest, text = '~' :: '{' :: rest ∧ readMarks text = (⟨['~', '{'], true, true⟩, rest)) ∨
    (∃ rest, text = '{' :: '~' :: rest ∧ readMarks text = (⟨['{', '~'], true, true⟩, rest)) ∨
    (∃ rest, text = '{' :: rest ∧ ¬ ['~'] <+: rest ∧
      readMarks text = (⟨['{'], false, true⟩, rest)) ∨
    (∃ rest, text = '~' :: rest ∧ ¬ ['{'] <+: rest ∧
      readMarks text = (⟨['~'], true, false⟩, rest)) ∨
    ¬ ['~'] <+: text ∧ ¬ ['{'] <+: text ∧ readMarks text = (⟨[], false, false⟩, text) := by
  unfold readMarks
  split
  · exact .inl ⟨_, rfl, rfl⟩
  · rename_i rest notRaw
    refine .inr (.inr (.inr (.inl ⟨rest, rfl, ?_, rfl⟩)))
    rintro ⟨tail, rfl⟩
    exact notRaw tail rfl
  · exact .inr (.inl ⟨_, rfl, rfl⟩)
  · rename_i rest notMarked
    refine .inr (.inr (.inl ⟨rest, rfl, ?_, rfl⟩))
    rintro ⟨tail, rfl⟩
    exact notMarked tail rfl
  · rename_i notTilde _ notBrace
    refine .inr (.inr (.inr (.inr ⟨?_, ?_, rfl⟩)))
    · rintro ⟨tail, rfl⟩
      exact notTilde tail rfl
    · rintro ⟨tail, rfl⟩
      exact notBrace tail rfl

private theorem readSign_cases (text : List Char) :
    (∃ rest, text = '!' :: '-' :: '-' :: rest ∧
      readSign text = ((['!', '-', '-'], .longRemark), rest)) ∨
    (∃ rest, text = '!' :: rest ∧ ¬ ['-', '-'] <+: rest ∧
      readSign text = ((['!'], .remark), rest)) ∨
    ¬ ['!'] <+: text ∧ readSign text = (([], .plain), text) := by
  unfold readSign
  split
  · exact .inl ⟨_, rfl, rfl⟩
  · rename_i rest notLong
    refine .inr (.inl ⟨rest, rfl, ?_, rfl⟩)
    rintro ⟨tail, rfl⟩
    exact notLong tail rfl
  · rename_i _ notRemark
    refine .inr (.inr ⟨?_, rfl⟩)
    rintro ⟨tail, rfl⟩
    exact notRemark tail rfl

private theorem not_prefix_cons
    {text other : List Char} {c : Char} (missing : ¬ [c] <+: text) : ¬ c :: other <+: text :=
  fun starts => missing ((List.prefix_append [c] other).trans starts)

/-- The opening that is read is the longest there is. -/
theorem exists_opensWith_readOpening (text : List Char) :
    ∃ opening,
      OpensWith text opening (readOpening text).1.form ∧
        (readOpening text).1.text = braces ++ opening := by
  rcases readMarks_cases text with ⟨rest, rfl, marks⟩ | ⟨rest, rfl, marks⟩ |
    ⟨rest, rfl, unmarked, marks⟩ | ⟨rest, rfl, plain, marks⟩ | ⟨unmarked, plain, marks⟩
  · simp only [readOpening, marks, if_true]
    refine ⟨['~', '{'], ⟨by decide, ⟨rest, rfl⟩, fun otherForm => ?_⟩, rfl⟩
    cases otherForm <;> simp [Form.openings]
  · simp only [readOpening, marks, if_true]
    refine ⟨['{', '~'], ⟨by decide, ⟨rest, rfl⟩, fun otherForm => ?_⟩, rfl⟩
    cases otherForm <;> simp [Form.openings]
  · simp only [readOpening, marks, if_true]
    refine ⟨['{'], ⟨by decide, ⟨rest, rfl⟩, fun otherForm => ?_⟩, rfl⟩
    cases otherForm <;> simp [Form.openings, unmarked]
  · rcases readSign_cases rest with ⟨later, rfl, sign⟩ | ⟨later, rfl, short, sign⟩ |
      ⟨signless, sign⟩
    · simp only [readOpening, marks, sign, Bool.false_eq_true, if_false]
      refine ⟨['~', '!', '-', '-'], ⟨by decide, ⟨later, rfl⟩, fun otherForm => ?_⟩, rfl⟩
      cases otherForm <;> simp [Form.openings]
    · simp only [readOpening, marks, sign, Bool.false_eq_true, if_false]
      refine ⟨['~', '!'], ⟨by decide, ⟨later, rfl⟩, fun otherForm => ?_⟩, rfl⟩
      cases otherForm <;> simp [Form.openings, short]
    · simp only [readOpening, marks, sign, Bool.false_eq_true, if_false]
      refine ⟨['~'], ⟨by decide, ⟨rest, rfl⟩, fun otherForm => ?_⟩, rfl⟩
      cases otherForm <;> simp [Form.openings, plain, not_prefix_cons signless]
  · rcases readSign_cases text with ⟨later, rfl, sign⟩ | ⟨later, rfl, short, sign⟩ |
      ⟨signless, sign⟩
    · simp only [readOpening, marks, sign, Bool.false_eq_true, if_false]
      refine ⟨['!', '-', '-'], ⟨by decide, ⟨later, rfl⟩, fun otherForm => ?_⟩, rfl⟩
      cases otherForm <;> simp [Form.openings]
    · simp only [readOpening, marks, sign, Bool.false_eq_true, if_false]
      refine ⟨['!'], ⟨by decide, ⟨later, rfl⟩, fun otherForm => ?_⟩, rfl⟩
      cases otherForm <;> simp [Form.openings, short]
    · simp only [readOpening, marks, sign, Bool.false_eq_true, if_false]
      refine ⟨[], ⟨by decide, ⟨text, rfl⟩, fun otherForm => ?_⟩, rfl⟩
      cases otherForm <;> simp [Form.openings, not_prefix_cons unmarked, not_prefix_cons plain,
        not_prefix_cons signless]

theorem readOpening_marked_iff (text : List Char) :
    (readOpening text).1.marked = true ↔ ['~'] <+: text ∨ ['{', '~'] <+: text := by
  have same : (readOpening text).1.marked = (readMarks text).1.marked := by
    simp only [readOpening]
    split <;> rfl
  rw [same]
  rcases readMarks_cases text with ⟨rest, rfl, marks⟩ | ⟨rest, rfl, marks⟩ |
    ⟨rest, rfl, unmarked, marks⟩ | ⟨rest, rfl, _, marks⟩ | ⟨unmarked, plain, marks⟩
  · simp [marks]
  · simp [marks]
  · simp [marks, unmarked]
  · simp [marks]
  · simp [marks, unmarked, not_prefix_cons plain]

end Stencil.Token
