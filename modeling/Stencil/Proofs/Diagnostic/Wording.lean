import Mathlib.Algebra.Ring.Nat
import Stencil.Proofs.Text.Lines
import Stencil.Token.Basic

/-!
What the wording of a fault takes from the source. Most faults cite a word of their tag, and
words have no blanks. Some cite the whole text of the tag, line feeds and all.
-/

namespace Stencil

namespace Token

private theorem not_isBlank_of_mem_words
    {token : Token} {word : String} (member : word ∈ token.words) :
    ∀ c ∈ word.toList, Text.isBlank c = false := by
  obtain ⟨piece, listed, rfl⟩ := List.mem_map.mp member
  rw [String.toList_ofList]
  exact fun c inside => Text.not_separates_of_mem_fields (List.mem_filter.mp listed).1 inside

end Token

namespace Fault

/-- The text of a whole tag that the wording of a fault cites. -/
def tag? : Fault → Option String
  | .unexpectedArgument _ tag | .invertedSection tag => some tag
  | .mismatchedClose _ found => some found
  | .unexpectedClose name => some name
  | _ => none

/-- Whether a fault takes its texts from a tag among others: words of it, the tag as a whole, or
the name of a block that one of them opens. A host's own faults take theirs from elsewhere. -/
def Cites (tokens : List Token) (token : Token) : Fault → Prop
  | .invalidPath text _ => text ∈ token.words
  | .unexpectedArgument argument tag => argument ∈ token.words ∧ tag = token.lexeme
  | .unknownBlock name | .missingArgument name | .unclosedBlock name => name ∈ token.words
  | .invertedSection tag | .unexpectedClose tag => tag = token.lexeme
  | .mismatchedClose expected found =>
      (∃ opening ∈ tokens, expected ∈ opening.words) ∧ found = token.lexeme
  | .repeatedElse name => ∃ opening ∈ tokens, name ∈ opening.words
  | .reported _ _ => False
  | .unterminatedTag | .unterminatedComment | .emptyExpression | .emptyBlockOpen
  | .emptyBlockClose | .elseOutsideBlock | .missingPartialName | .nestingTooDeep => True

variable {tokens : List Token} {token : Token} {fault : Fault}

theorem Cites.lexeme_of_tag?
    (cites : fault.Cites tokens token) {tag : String} (cited : fault.tag? = some tag) :
    tag = token.lexeme := by
  cases fault <;> simp only [tag?, reduceCtorEq, Option.some.injEq] at cited <;> subst cited
  case unexpectedArgument => exact cites.2
  case invertedSection => exact cites
  case mismatchedClose => exact cites.2
  case unexpectedClose => exact cites

def feeds (text : String) : Nat :=
  Text.feeds text.toList

theorem feeds_append (first second : String) :
    feeds (first ++ second) = feeds first + feeds second := by
  rw [feeds, String.toList_append, Text.feeds_append]
  rfl

private theorem feeds_eq_zero {text : String} (plain : '\n' ∉ text.toList) : feeds text = 0 :=
  List.count_eq_zero_of_not_mem plain

private theorem feeds_between (text : String) : feeds (between text) = feeds text := by
  simp (disch := decide) only [between, feeds_append, feeds_eq_zero, Nat.zero_add, Nat.add_zero]

private theorem feeds_tagText (text : String) : feeds (tagText text) = feeds text := by
  simp (disch := decide) only [tagText, feeds_append, feeds_eq_zero, Nat.zero_add, Nat.add_zero]

private theorem feeds_flaw (flaw : Path.Flaw) : feeds flaw.message = 0 := by
  cases flaw <;> decide +kernel

private theorem feeds_of_mem_words {word : String} (member : word ∈ token.words) : feeds word = 0 :=
  Text.feeds_eq_zero_of_solid (Token.not_isBlank_of_mem_words member)

/-- The wording of a fault has the line feeds of the tag that it cites, and no other. -/
theorem Cites.feeds_message (cites : fault.Cites tokens token) :
    feeds fault.message = feeds (fault.tag?.getD "") := by
  unfold message tag?
  cases fault with
  | unterminatedTag | unterminatedComment | emptyExpression | emptyBlockOpen | emptyBlockClose
  | elseOutsideBlock | missingPartialName | nestingTooDeep => decide +kernel
  | invalidPath text flaw =>
      simp (disch := decide) only [feeds_append, feeds_between, feeds_eq_zero, feeds_flaw,
        feeds_of_mem_words cites]
  | unexpectedArgument argument tag =>
      simp (disch := decide) only [feeds_append, feeds_between, feeds_eq_zero,
        feeds_of_mem_words cites.1, Nat.zero_add]
      rfl
  | unknownBlock name | missingArgument name =>
      simp (disch := decide) only [feeds_append, feeds_between, feeds_eq_zero,
        feeds_of_mem_words cites]
  | mismatchedClose expected found =>
      obtain ⟨⟨opening, _, named⟩, _⟩ := cites
      simp (disch := decide) only [feeds_append, feeds_between, feeds_tagText, feeds_eq_zero,
        feeds_of_mem_words named, Nat.zero_add]
      rfl
  | invertedSection tag | unexpectedClose tag =>
      simp (disch := decide) only [feeds_append, feeds_between, feeds_tagText, feeds_eq_zero,
        Nat.zero_add, Nat.add_zero]
      rfl
  | repeatedElse name =>
      obtain ⟨opening, _, named⟩ := cites
      simp (disch := decide) only [feeds_append, feeds_between, feeds_eq_zero,
        feeds_of_mem_words named]
  | unclosedBlock name =>
      simp (disch := decide) only [feeds_append, feeds_between, feeds_tagText, feeds_eq_zero,
        feeds_of_mem_words cites]
  | reported kind message => exact cites.elim

private theorem endsSolid_wording
    (start : String) {last : String} (solid : Text.endsSolid last.toList = true) :
    Text.endsSolid (start ++ last).toList = true := by
  rw [String.toList_append]
  exact Text.endsSolid_append start.toList solid

private theorem endsSolid_between (text : String) : Text.endsSolid (between text).toList = true :=
  endsSolid_wording _ (by decide)

private theorem Cites.endsSolid_message (cites : fault.Cites tokens token) :
    Text.endsSolid fault.message.toList = true := by
  unfold message
  cases fault with
  | unterminatedTag | unterminatedComment | emptyExpression | emptyBlockOpen | emptyBlockClose
  | elseOutsideBlock | missingPartialName | nestingTooDeep => decide +kernel
  | invalidPath text flaw =>
      apply endsSolid_wording
      cases flaw <;> decide +kernel
  | invertedSection | missingArgument | unexpectedClose | repeatedElse =>
      exact endsSolid_wording _ (by decide)
  | unexpectedArgument | unknownBlock | mismatchedClose | unclosedBlock =>
      exact endsSolid_wording _ (endsSolid_between _)
  | reported kind message => exact cites.elim

end Fault

namespace Diagnostic

def Cites (tokens : List Token) (diagnostic : Diagnostic) : Prop :=
  ∃ token ∈ tokens, diagnostic.span = token.span ∧ diagnostic.fault.Cites tokens token

def feeds (diagnostic : Diagnostic) : Nat :=
  Fault.feeds (diagnostic.fault.tag?.getD "")

private theorem feeds_span (span : Span) : Fault.feeds span.display = 0 := by
  have digits (n : Nat) : Fault.feeds (toString n) = 0 := by
    apply Fault.feeds_eq_zero
    intro member
    rw [Nat.toString_eq_repr, Nat.toList_repr] at member
    exact absurd (Nat.isDigit_of_mem_toDigits (by decide) (by decide) member) (by decide)
  rw [Span.display]
  simp (disch := decide) only [Fault.feeds_append, digits, Fault.feeds_eq_zero]

variable {tokens : List Token} {diagnostic : Diagnostic}

private theorem Cites.feeds_display (cites : diagnostic.Cites tokens) :
    Fault.feeds diagnostic.display = diagnostic.feeds := by
  obtain ⟨token, _, _, cited⟩ := cites
  rw [display, Fault.feeds_append, Fault.feeds_append, feeds_span, cited.feeds_message, feeds]
  exact Nat.zero_add _

private theorem Cites.endsSolid_display (cites : diagnostic.Cites tokens) :
    Text.endsSolid diagnostic.display.toList = true := by
  obtain ⟨token, _, _, cited⟩ := cites
  exact Fault.endsSolid_wording _ cited.endsSolid_message

/-- The lines of a report are those of its diagnostics, one more for each than line feeds. -/
theorem lines_report
    {diagnostics : List Diagnostic} (cites : ∀ diagnostic ∈ diagnostics, diagnostic.Cites tokens) :
    Text.lines (report diagnostics).toList =
      diagnostics.flatMap fun diagnostic => Text.lines diagnostic.display.toList := by
  rw [report, Text.lines_intercalate, List.flatMap_map]
  intro text member
  obtain ⟨diagnostic, listed, rfl⟩ := List.mem_map.mp member
  exact (cites diagnostic listed).endsSolid_display

theorem length_lines_report
    {diagnostics : List Diagnostic} (cites : ∀ diagnostic ∈ diagnostics, diagnostic.Cites tokens) :
    (Text.lines (report diagnostics).toList).length =
      diagnostics.length + (diagnostics.map feeds).sum := by
  rw [lines_report cites]
  induction diagnostics with
  | nil => rfl
  | cons diagnostic rest inductionHypothesis =>
      rw [List.forall_mem_cons] at cites
      have here := Text.length_lines cites.1.endsSolid_display
      have same : Text.feeds diagnostic.display.toList = diagnostic.feeds :=
        cites.1.feeds_display
      rw [List.flatMap_cons, List.length_append, inductionHypothesis cites.2, here, same,
        List.map_cons, List.sum_cons, List.length_cons]
      omega

theorem lines_report_eq_map
    {diagnostics : List Diagnostic} (cites : ∀ diagnostic ∈ diagnostics, diagnostic.Cites tokens) :
    Text.lines (report diagnostics).toList =
        diagnostics.map (fun diagnostic => diagnostic.display.toList) ↔
      ∀ diagnostic ∈ diagnostics, diagnostic.feeds = 0 := by
  constructor
  · intro single
    have length := length_lines_report cites
    rw [single, List.length_map] at length
    have none : (diagnostics.map feeds).sum = 0 := by omega
    intro diagnostic member
    exact List.sum_eq_zero_iff_forall_eq_nat.mp none _ (List.mem_map_of_mem member)
  · intro none
    rw [lines_report cites, List.map_eq_flatMap]
    apply List.flatMap_congr
    intro diagnostic member
    have cited := cites diagnostic member
    apply (Text.lines_eq_singleton cited.endsSolid_display).mpr
    exact cited.feeds_display.trans (none diagnostic member)

end Diagnostic

end Stencil
