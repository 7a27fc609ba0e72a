import Stencil.Proofs.Reading.Lenient
import Stencil.Proofs.Token.Site

/-!
Excerpts. Below its headline a diagnostic shows the line that its tag starts on, and under that
line a marker. The marker is laid out in bytes and the line in characters, so it underlines the
tag where the two agree: behind characters of one byte, and as far as the line goes.
-/

namespace Stencil

open Text Token

/-- A line of a source with its number, and what stands under it. -/
structure Excerpt where
  number : Nat
  line : List Char
  marker : List Char

namespace Excerpt

def text (excerpt : Excerpt) : String :=
  let number := toString excerpt.number
  let blank := String.ofList (List.replicate number.length ' ')
  " " ++ blank ++ " |\n" ++
    (" " ++ number ++ " | " ++ String.ofList excerpt.line ++ "\n") ++
    (" " ++ blank ++ " | " ++ String.ofList excerpt.marker ++ "\n")

/-- The number of characters before the caret. -/
def caret (excerpt : Excerpt) : Nat :=
  excerpt.marker.idxOf '^'

/-- Whether the caret stands under what follows a lead of the line, and the marker ends no later
than the line. -/
def Underlines (excerpt : Excerpt) (lead : List Char) : Prop :=
  excerpt.caret = lead.length ∧ excerpt.marker.length ≤ excerpt.line.length

instance (excerpt : Excerpt) (lead : List Char) : Decidable (excerpt.Underlines lead) :=
  inferInstanceAs (Decidable (_ ∧ _))

/-- A caret behind some blanks, and so many tildes that it is as wide as given. -/
def markerOf (indent width : Nat) : List Char :=
  List.replicate indent ' ' ++ '^' :: List.replicate (width - 1) '~'

private theorem idxOf_markerOf (indent width : Nat) :
    (markerOf indent width).idxOf '^' = indent := by
  have blank : '^' ∉ List.replicate indent ' ' := fun member =>
    absurd (List.eq_of_mem_replicate member) (by decide)
  rw [markerOf, List.idxOf_append_of_notMem blank, List.idxOf_cons_self, List.length_replicate,
    Nat.add_zero]

private theorem length_markerOf {width : Nat} (positive : 0 < width) (indent : Nat) :
    (markerOf indent width).length = indent + width := by
  rw [markerOf, List.length_append, List.length_replicate, List.length_cons,
    List.length_replicate]
  omega

end Excerpt

namespace Diagnostic

/-- A diagnostic whose line the source has shows it in an excerpt. -/
theorem displayWithSource_eq
    {diagnostic : Diagnostic} {source line : String}
    (found : sourceLine? diagnostic.span source = some line) :
    diagnostic.displayWithSource source =
      diagnostic.display ++ "\n" ++
        Excerpt.text ⟨diagnostic.span.start.line.toNat, line.toList,
          Excerpt.markerOf (diagnostic.span.start.col.toNat - 1) diagnostic.span.len.toNat⟩ := by
  rw [displayWithSource, found]
  simp [excerptLines, Span.underline, Excerpt.text, Excerpt.markerOf, String.join,
    String.append_assoc]

/-- What the display of a diagnostic shows of the tag that it is about. -/
structure Exhibits (diagnostic : Diagnostic) (source : String) {token : Token}
    (site : Site source token) (excerpt : Excerpt) : Prop where
  shown : diagnostic.displayWithSource source = diagnostic.display ++ "\n" ++ excerpt.text
  number : excerpt.number = 1 + Text.feeds site.before
  line : excerpt.line = site.lead ++ site.here
  marker : excerpt.marker = Excerpt.markerOf (byteLength site.lead) (byteLength site.part)
  caret_iff : excerpt.caret = site.lead.length ↔ IsAscii site.lead
  underlines_iff : excerpt.Underlines site.lead ↔
    IsAscii site.lead ∧ byteLength site.part ≤ site.here.length
  one_line_iff : IsAscii site.part →
    (byteLength site.part ≤ site.here.length ↔ '\n' ∉ site.part)
  undelimited : token.kind.fault?.isSome = true → byteLength site.part ≤ site.here.length

private theorem exists_exhibits
    {diagnostic : Diagnostic} {source : String} {token : Token}
    (span : diagnostic.span = token.span) (site : Site source token) :
    ∃ excerpt, diagnostic.Exhibits source site excerpt := by
  have lineNumber := site.line_eq
  have column := site.col_eq
  -- Lines are numbered from one, so the line has the index of the line feeds before it.
  have found : sourceLine? diagnostic.span source =
      some (String.ofList (site.lead ++ site.here)) := by
    have positive : token.span.start.line ≠ 0 := by
      intro zero
      rw [zero] at lineNumber
      exact absurd lineNumber.symm (Nat.ne_of_gt (Nat.lt_add_right _ Nat.one_pos))
    rw [sourceLine?, span, if_neg positive, lineNumber, Nat.add_sub_cancel_left,
      site.isLine.getElem?_lines (List.append_ne_nil_of_right_ne_nil _ site.here_ne_nil)]
    rfl
  have width : 0 < byteLength site.part := byteLength_pos site.covers.nonempty
  have inLine : byteLength site.lead = site.lead.length ↔ IsAscii site.lead :=
    byteLength_eq_length_iff site.lead
  have marker : Excerpt.markerOf (diagnostic.span.start.col.toNat - 1)
      diagnostic.span.len.toNat =
        Excerpt.markerOf (byteLength site.lead) (byteLength site.part) := by
    rw [span, column, site.covers.length, Nat.add_sub_cancel_left]
  refine ⟨_, displayWithSource_eq found, ?_, String.toList_ofList, marker, ?_, ?_, ?_,
    site.byteLength_part_le⟩
  · rw [span]
    exact lineNumber
  · rw [Excerpt.caret, marker, Excerpt.idxOf_markerOf]
    exact inLine
  · rw [Excerpt.Underlines, Excerpt.caret, marker, Excerpt.idxOf_markerOf,
      Excerpt.length_markerOf width, inLine, String.toList_ofList, List.length_append]
    refine and_congr_right fun ascii => ?_
    rw [inLine.mpr ascii]
    exact Nat.add_le_add_iff_left
  · intro ascii
    rw [(byteLength_eq_length_iff _).mpr ascii]
    exact site.length_part_le_iff

end Diagnostic

/-- Each diagnostic of a source below four gigabytes shows the line that its tag starts on. The
tag is underlined there if and only if what comes before it on the line takes one byte per
character, and from the tag on the line has as many characters as the token covers bytes. -/
theorem Document.exists_exhibits_of_mem_readLenient
    (table : BlockTable) {source : String} (short : byteLength source.toList < 2 ^ 32)
    {diagnostic : Diagnostic} (member : diagnostic ∈ (readLenient table source).2) :
    ∃ token ∈ content source,
      token.kind.isTag = true ∧ diagnostic.span = token.span ∧
        ∃ (site : Site source token) (excerpt : Excerpt),
          diagnostic.Exhibits source site excerpt := by
  obtain ⟨token, tokenMember, tag, span⟩ := exists_tag_of_mem_diagnostics member
  obtain ⟨site⟩ := exists_site short tokenMember tag
  exact ⟨token, tokenMember, tag, span, site, Diagnostic.exists_exhibits span site⟩

/-- A tag on a second line, behind a first one with a character of two bytes. -/
theorem Document.exists_exhibits_of_mem_readLenient_second_line :
    let source := "é\r\na" ++ Fault.tagText ""
    let diagnostic : Diagnostic := ⟨.emptyExpression, ⟨⟨2, 2⟩, 4⟩⟩
    byteLength source.toList < 2 ^ 32 ∧ diagnostic ∈ (readLenient .empty source).2 ∧
      ∃ token ∈ content source,
        token.kind.isTag = true ∧ diagnostic.span = token.span ∧
          ∃ (site : Site source token) (excerpt : Excerpt),
            diagnostic.Exhibits source site excerpt := by
  intro source diagnostic
  have short : byteLength source.toList < 2 ^ 32 := by decide
  have member : diagnostic ∈ (readLenient .empty source).2 := by decide +kernel
  exact ⟨short, member, exists_exhibits_of_mem_readLenient .empty short member⟩

/-- A character of two bytes before the tag moves the caret away from it. -/
theorem Document.not_underlines_behind_wide_lead :
    let source := "é" ++ Fault.tagText ""
    let diagnostic : Diagnostic := ⟨.emptyExpression, ⟨⟨1, 3⟩, 4⟩⟩
    let excerpt : Excerpt := ⟨1, source.toList, "  ^~~~".toList⟩
    diagnostic ∈ (readLenient .empty source).2 ∧
      diagnostic.displayWithSource source = diagnostic.display ++ "\n" ++ excerpt.text ∧
      excerpt.caret ≠ "é".length ∧ excerpt.line.length < excerpt.marker.length := by
  decide +kernel

/-- The marker of a tag over two lines is longer than the first of them. -/
example :
    let source := Fault.tagText "\n"
    let diagnostic : Diagnostic := ⟨.emptyExpression, ⟨⟨1, 1⟩, 5⟩⟩
    let excerpt : Excerpt := ⟨1, ['{', '{'], "^~~~~".toList⟩
    (Document.readLenient .empty source).2 = [diagnostic] ∧
      diagnostic.displayWithSource source = diagnostic.display ++ "\n" ++ excerpt.text ∧
      excerpt.caret = 0 ∧ ¬ excerpt.Underlines [] := by
  decide +kernel

end Stencil
