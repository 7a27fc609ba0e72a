import Mathlib.Data.List.DropRight
import Stencil.Proofs.Text.Blank
import Stencil.Text.Lines

/-!
The lines of texts that are joined by line feeds. Where each text ends with a character that is
not blank, the lines of the whole are the lines of the parts.
-/

namespace Stencil.Text

private theorem length_fields (separates : Char → Bool) (text : List Char) :
    (fields separates text).length = text.countP separates + 1 := by
  induction text with
  | nil => rfl
  | cons c rest inductionHypothesis =>
      rw [fields, List.countP_cons]
      by_cases separating : separates c = true
      · rw [if_pos separating, if_pos separating, List.length_cons, inductionHypothesis]
      · rw [if_neg separating, if_neg separating, ← inductionHypothesis]
        obtain ⟨piece, pieces, split⟩ :=
          List.exists_cons_of_ne_nil (fields_ne_nil separates rest)
        rw [split]
        rfl

private theorem exists_fields_append_singleton
    {separates : Char → Bool} {last : Char} (solid : separates last = false)
    (start : List Char) :
    ∃ pieces piece, fields separates (start ++ [last]) = pieces ++ [piece ++ [last]] := by
  induction start with
  | nil =>
      refine ⟨[], [], ?_⟩
      rw [List.nil_append, fields, solid]
      rfl
  | cons c rest inductionHypothesis =>
      obtain ⟨pieces, piece, split⟩ := inductionHypothesis
      rw [List.cons_append, fields, split]
      by_cases separating : separates c = true
      · rw [if_pos separating]
        exact ⟨[] :: pieces, piece, rfl⟩
      · rw [if_neg separating]
        cases pieces with
        | nil => exact ⟨[], c :: piece, rfl⟩
        | cons first others => exact ⟨(c :: first) :: others, piece, rfl⟩

private theorem fields_of_feedless {text : List Char} (feedless : '\n' ∉ text) :
    fields (· == '\n') text = [text] := by
  apply fields_of_solid
  intro c member
  rw [beq_eq_false_iff_ne]
  rintro rfl
  exact feedless member

def endsSolid (text : List Char) : Bool :=
  text.getLast?.any fun c => !isBlank c

theorem endsSolid_append
    (first : List Char) {second : List Char} (solid : endsSolid second = true) :
    endsSolid (first ++ second) = true := by
  cases last : second.getLast? with
  | none =>
      rw [endsSolid, last] at solid
      exact nomatch solid
  | some c =>
      rw [endsSolid, last] at solid
      rw [endsSolid, List.getLast?_append, last]
      exact solid

private theorem exists_of_endsSolid {text : List Char} (solid : endsSolid text = true) :
    ∃ start last, text = start ++ [last] ∧ isBlank last = false := by
  obtain ⟨last, found, notBlank⟩ := Option.any_eq_true _ _ |>.mp solid
  obtain ⟨start, rfl⟩ := List.getLast?_eq_some_iff.mp found
  exact ⟨start, last, rfl, Bool.not_eq_true' _ |>.mp notBlank⟩

/-- A text that does not end with a blank has no other lines than its pieces. -/
theorem lines_of_endsSolid {text : List Char} (solid : endsSolid text = true) :
    lines text = (fields (· == '\n') text).map dropReturn := by
  obtain ⟨start, last, rfl, notBlank⟩ := exists_of_endsSolid solid
  have noFeed : (last == '\n') = false := by
    rw [beq_eq_false_iff_ne]
    rintro rfl
    exact absurd notBlank (by decide)
  have noReturn : last ≠ '\r' := by
    rintro rfl
    exact absurd notBlank (by decide)
  obtain ⟨pieces, piece, split⟩ :=
    @exists_fields_append_singleton (· == '\n') last noFeed start
  rw [lines, split]
  simp [dropReturn, noReturn]

private theorem lines_append_feed (text rest : List Char) :
    lines (text ++ '\n' :: rest) =
      (fields (· == '\n') text).map dropReturn ++ lines rest := by
  rw [lines, lines, fields_append_cons rfl,
    List.dropLast_append_of_ne_nil (fields_ne_nil _ rest), List.map_append, List.append_assoc,
    List.getLast?_append_of_ne_nil _ (fields_ne_nil _ rest)]

private theorem lines_append_cons
    {text : List Char} (solid : endsSolid text = true) (rest : List Char) :
    lines (text ++ '\n' :: rest) = lines text ++ lines rest := by
  rw [lines_append_feed, lines_of_endsSolid solid]

theorem lines_intercalate
    {texts : List String} (solid : ∀ text ∈ texts, endsSolid text.toList = true) :
    lines ("\n".intercalate texts).toList = texts.flatMap fun text => lines text.toList := by
  induction texts with
  | nil => rfl
  | cons text rest inductionHypothesis =>
      rw [List.forall_mem_cons] at solid
      cases rest with
      | nil => simp
      | cons next others =>
          rw [String.intercalate_cons_cons, String.append_assoc, String.toList_append,
            String.toList_append]
          rw [List.flatMap_cons, ← inductionHypothesis solid.2]
          exact lines_append_cons solid.1 _

def feeds (text : List Char) : Nat :=
  text.count '\n'

theorem feeds_append (first second : List Char) :
    feeds (first ++ second) = feeds first + feeds second :=
  List.count_append

theorem feeds_eq_zero_of_solid {text : List Char} (solid : ∀ c ∈ text, isBlank c = false) :
    feeds text = 0 := by
  apply List.count_eq_zero_of_not_mem
  intro member
  exact absurd (solid '\n' member) (by decide)

theorem length_lines {text : List Char} (solid : endsSolid text = true) :
    (lines text).length = feeds text + 1 := by
  rw [lines_of_endsSolid solid, List.length_map, length_fields]
  rfl

theorem lines_eq_singleton {text : List Char} (solid : endsSolid text = true) :
    lines text = [text] ↔ feeds text = 0 := by
  constructor
  · intro alone
    have length := length_lines solid
    rw [alone] at length
    exact (Nat.succ.inj length).symm
  · intro none
    have whole := fields_of_feedless (List.count_eq_zero.mp none)
    obtain ⟨start, last, rfl, notBlank⟩ := exists_of_endsSolid solid
    rw [lines, whole]
    simp

/-! ## The line at a place -/

/-- Whether what comes after a line starts with the end of that line, or is the end of all. -/
def EndsLine (line after : List Char) : Prop :=
  after = [] ∨ (∃ rest, after = '\r' :: '\n' :: rest) ∨
    ∃ rest, after = '\n' :: rest ∧ line.getLast? ≠ some '\r'

/-- Whether a text has a line, without its end, between two parts of it. -/
structure IsLine (text before line after : List Char) : Prop where
  split : text = before ++ (line ++ after)
  starts : before = [] ∨ before.getLast? = some '\n'
  feedless : '\n' ∉ line
  ends : EndsLine line after

theorem endsLine_append
    (first : List Char) {second : List Char} (nonempty : second ≠ []) (after : List Char) :
    EndsLine (first ++ second) after ↔ EndsLine second after := by
  rw [EndsLine, EndsLine, List.getLast?_append_of_ne_nil first nonempty]

private theorem head?_lines
    {line after : List Char} (nonempty : line ≠ []) (feedless : '\n' ∉ line)
    (ends : EndsLine line after) :
    (lines (line ++ after)).head? = some line := by
  rcases ends with rfl | ⟨rest, rfl⟩ | ⟨rest, rfl, noReturn⟩
  · rw [List.append_nil, lines, fields_of_feedless feedless]
    simp [nonempty]
  · have feedlessReturn : '\n' ∉ line ++ ['\r'] := by simpa using feedless
    rw [show line ++ '\r' :: '\n' :: rest = (line ++ ['\r']) ++ '\n' :: rest by simp,
      lines_append_feed, fields_of_feedless feedlessReturn]
    simp [dropReturn]
  · rw [lines_append_feed, fields_of_feedless feedless]
    simp [dropReturn, noReturn]

/-- A line has as many lines before it as there are line feeds. -/
theorem IsLine.getElem?_lines
    {text before line after : List Char} (isLine : IsLine text before line after)
    (nonempty : line ≠ []) : (lines text)[feeds before]? = some line := by
  obtain ⟨rfl, starts, feedless, ends⟩ := isLine
  have first := head?_lines nonempty feedless ends
  rw [List.head?_eq_getElem?] at first
  rcases starts with rfl | ended
  · exact first
  · obtain ⟨earlier, rfl⟩ := List.getLast?_eq_some_iff.mp ended
    have count : feeds (earlier ++ ['\n']) =
        ((fields (· == '\n') earlier).map dropReturn).length := by
      rw [List.length_map, length_fields, feeds_append]
      rfl
    rw [List.append_assoc, List.singleton_append, lines_append_feed, count,
      List.getElem?_append_right (Nat.le_refl _), Nat.sub_self]
    exact first

private theorem exists_endsLine
    {c : Char} (noFeed : c ≠ '\n') (noReturn : c ≠ '\r') (rest : List Char) :
    ∃ here after, rest = here ++ after ∧ '\n' ∉ c :: here ∧ EndsLine (c :: here) after := by
  have startsWith {here : List Char} (feedless : '\n' ∉ here) : '\n' ∉ c :: here := by
    rw [List.mem_cons, not_or]
    exact ⟨noFeed.symm, feedless⟩
  by_cases feed : '\n' ∈ rest
  · obtain ⟨whole, more, rfl, feedless⟩ := List.eq_append_cons_of_mem feed
    by_cases returns : (c :: whole).getLast? = some '\r'
    · obtain ⟨start, ends⟩ := List.getLast?_eq_some_iff.mp returns
      cases start with
      | nil => exact absurd (List.cons.inj ends).1 noReturn
      | cons d here =>
          obtain ⟨rfl, rfl⟩ := List.cons.inj ends
          refine ⟨here, '\r' :: '\n' :: more, by simp, startsWith ?_, .inr (.inl ⟨more, rfl⟩)⟩
          exact fun member => feedless (List.mem_append_left _ member)
    · exact ⟨whole, '\n' :: more, rfl, startsWith feedless, .inr (.inr ⟨more, rfl, returns⟩)⟩
  · exact ⟨rest, [], (List.append_nil rest).symm, startsWith feed, .inl rfl⟩

/-- What comes before a place on its line. -/
def lead (start : List Char) : List Char :=
  start.rtakeWhile fun c => c != '\n'

private theorem feeds_lead (start : List Char) : feeds (lead start) = 0 := by
  apply List.count_eq_zero_of_not_mem
  intro member
  exact absurd (List.mem_rtakeWhile_imp member) (by decide)

theorem lead_append
    {before line : List Char} (starts : before = [] ∨ before.getLast? = some '\n')
    (feedless : '\n' ∉ line) : lead (before ++ line) = line := by
  have noFeed : ∀ c ∈ line.reverse, (c != '\n') = true := by
    intro c member
    rw [bne_iff_ne]
    rintro rfl
    exact feedless (List.mem_reverse.mp member)
  rw [lead, List.rtakeWhile, List.reverse_append, List.takeWhile_append_of_pos noFeed,
    List.reverse_append, List.reverse_reverse]
  rcases starts with rfl | ended
  · rfl
  · obtain ⟨earlier, rfl⟩ := List.getLast?_eq_some_iff.mp ended
    rw [List.reverse_append]
    rfl

theorem exists_isLine
    (start : List Char) {c : Char} (noFeed : c ≠ '\n') (noReturn : c ≠ '\r')
    (rest : List Char) :
    ∃ before here after, start = before ++ lead start ∧ rest = here ++ after ∧
      IsLine (start ++ c :: rest) before (lead start ++ c :: here) after := by
  obtain ⟨here, after, split, feedless, ends⟩ := exists_endsLine noFeed noReturn rest
  have whole : start.rdropWhile (fun d => d != '\n') ++ lead start = start :=
    List.rdropWhile_append_rtakeWhile
  refine ⟨_, here, after, whole.symm, split, ?_, ?_, ?_, ?_⟩
  · rw [split]
    nth_rewrite 1 [← whole]
    simp only [List.append_assoc, List.cons_append]
  · by_cases empty : start.rdropWhile (fun d => d != '\n') = []
    · exact .inl empty
    · have last := List.rdropWhile_last_not (fun d => d != '\n') start empty
      rw [List.getLast?_eq_some_getLast empty]
      exact .inr (congrArg some (by simpa using last))
  · rw [List.mem_append, not_or]
    exact ⟨List.count_eq_zero.mp (feeds_lead start), feedless⟩
  · exact (endsLine_append _ (List.cons_ne_nil c here) after).mpr ends

/-- A part of the text that starts on a line lies on it if it has no line feed; it must not stop
within the end of the line. -/
theorem length_le_iff_of_endsLine
    {here after part later : List Char} (split : part ++ later = here ++ after)
    (feedless : '\n' ∉ here) (ends : EndsLine here after) (solid : part.getLast? ≠ some '\r') :
    part.length ≤ here.length ↔ '\n' ∉ part := by
  -- The part stops on the line or goes on behind it.
  rcases List.append_eq_append_iff.mp split with ⟨more, rfl, _⟩ | ⟨more, rfl, behind⟩
  · refine iff_of_true ?_ fun member => feedless (List.mem_append_left more member)
    rw [List.length_append]
    exact Nat.le_add_right _ _
  cases more with
  | nil =>
      rw [List.append_nil]
      exact iff_of_true (Nat.le_refl _) feedless
  | cons d more =>
      refine iff_of_false ?_ fun none => ?_
      · rw [List.length_append, List.length_cons]
        omega
      rw [List.mem_append, not_or, List.mem_cons, not_or] at none
      -- What it holds behind the line starts with the end of the line.
      rcases ends with rfl | ⟨rest, rfl⟩ | ⟨rest, rfl, _⟩
      · exact absurd behind (List.cons_ne_nil _ _).symm
      · obtain ⟨rfl, returned⟩ := List.cons.inj behind
        cases more with
        | nil => exact solid List.getLast?_concat
        | cons e more => exact none.2.2 ((List.cons.inj returned).1 ▸ List.mem_cons_self)
      · exact none.2.1 (List.cons.inj behind).1

end Stencil.Text
