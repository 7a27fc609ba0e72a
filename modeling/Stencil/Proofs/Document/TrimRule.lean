import Stencil.Proofs.Document.Respelling
import Stencil.Proofs.Document.Settling

/-!
The rule of trim marks, told without the passes. A run of text loses its leading blanks where the
tag right before it has a mark on that side, and its trailing blanks where the tag right after it
has one; at the edges of a section these are the tags of the block. A text that is left empty
leaves its section, and everything else stays in place.
-/

namespace Stencil

namespace Text

/-- The characters that Unicode gives the property White_Space. -/
def whiteCharacters : List Char :=
  ['\t', '\n', '\x0b', '\x0c', '\r', ' ', '\u0085', '\u00a0', '\u1680', '\u2000', '\u2001',
    '\u2002', '\u2003', '\u2004', '\u2005', '\u2006', '\u2007', '\u2008', '\u2009', '\u200a',
    '\u2028', '\u2029', '\u202f', '\u205f', '\u3000']

/-- What a text is left with when it loses the blanks at its start, at its end, or at both. Only
white characters are lost, only at the ends that are asked for, and none is left there. -/
structure Strips (start stop : Bool) (text kept : List Char) : Prop where
  split : ∃ leading trailing, text = leading ++ (kept ++ trailing) ∧
    (∀ c ∈ leading, c ∈ whiteCharacters) ∧ (∀ c ∈ trailing, c ∈ whiteCharacters) ∧
    (start = false → leading = []) ∧ (stop = false → trailing = [])
  head : start = true → ∀ c, kept.head? = some c → c ∉ whiteCharacters
  last : stop = true → ∀ c, kept.getLast? = some c → c ∉ whiteCharacters

private theorem isBlank_iff_mem_whiteCharacters {c : Char} :
    isBlank c = true ↔ c ∈ whiteCharacters := by
  constructor
  · intro blank
    have code : c.toNat ∈ whiteCharacters.map Char.toNat := by
      simp only [isBlank, blankRanges, List.any_cons, List.any_nil, Bool.or_eq_true,
        Bool.and_eq_true, decide_eq_true_eq, Bool.or_false] at blank
      simp [whiteCharacters]
      omega
    obtain ⟨other, member, same⟩ := List.mem_map.mp code
    rwa [← Char.toNat_inj.mp same]
  · have blank : whiteCharacters.all isBlank = true := by decide
    exact List.all_eq_true.mp blank c

private theorem trimStart_append_of_white
    {leading : List Char} (white : ∀ c ∈ leading, c ∈ whiteCharacters) (rest : List Char) :
    trimStart (leading ++ rest) = trimStart rest :=
  List.dropWhile_append_of_pos fun c member => isBlank_iff_mem_whiteCharacters.mpr (white c member)

private theorem trimEnd_append_of_white
    {trailing : List Char} (white : ∀ c ∈ trailing, c ∈ whiteCharacters) (rest : List Char) :
    trimEnd (rest ++ trailing) = trimEnd rest := by
  have reversed : ∀ c ∈ trailing.reverse, isBlank c = true := by
    intro c member
    exact isBlank_iff_mem_whiteCharacters.mpr (white c (List.mem_reverse.mp member))
  rw [trimEnd, List.reverse_append, List.dropWhile_append_of_pos reversed, trimEnd]

private theorem trimStart_eq_self_iff {text : List Char} :
    trimStart text = text ↔ ∀ c, text.head? = some c → c ∉ whiteCharacters := by
  cases text with
  | nil => simp [trimStart]
  | cons c rest =>
      rw [trimStart, List.dropWhile_eq_self_iff]
      simp [isBlank_iff_mem_whiteCharacters]

private theorem trimEnd_eq_self_iff {text : List Char} :
    trimEnd text = text ↔ ∀ c, text.getLast? = some c → c ∉ whiteCharacters := by
  rw [← List.head?_reverse, ← trimStart_eq_self_iff, trimEnd, ← trimStart, List.reverse_eq_iff]

private theorem exists_white_start (start : Bool) (text : List Char) :
    ∃ leading, text = leading ++ (if start then trimStart text else text) ∧
      (∀ c ∈ leading, c ∈ whiteCharacters) ∧ (start = false → leading = []) := by
  cases start with
  | false => exact ⟨[], rfl, by simp, fun _ => rfl⟩
  | true =>
      refine ⟨text.takeWhile isBlank, ?_, ?_, Bool.noConfusion⟩
      · exact List.takeWhile_append_dropWhile.symm
      · intro c member
        exact isBlank_iff_mem_whiteCharacters.mp (List.mem_takeWhile_imp member)

private theorem exists_white_end (stop : Bool) (text : List Char) :
    ∃ trailing, text = (if stop then trimEnd text else text) ++ trailing ∧
      (∀ c ∈ trailing, c ∈ whiteCharacters) ∧ (stop = false → trailing = []) := by
  obtain ⟨leading, split, white, absent⟩ := exists_white_start stop text.reverse
  refine ⟨leading.reverse, ?_, ?_, ?_⟩
  · cases stop with
    | false => simp [absent rfl]
    | true => simpa [trimEnd, trimStart] using List.reverse_eq_iff.mp split
  · intro c member
    exact white c (List.mem_reverse.mp member)
  · intro unasked
    rw [absent unasked, List.reverse_nil]

end Text

private theorem eq_trimEnds_of_strips
    {start stop : Bool} {text kept : String}
    (strips : Text.Strips start stop text.toList kept.toList) :
    kept = trimEnds start stop text := by
  obtain ⟨⟨leading, trailing, split, whiteLeading, whiteTrailing, noLeading, noTrailing⟩, head,
    last⟩ := strips
  apply String.toList_injective
  rw [trimEnds, String.toList_ofList, split]
  cases start with
  | false =>
      rw [noLeading rfl, List.nil_append, if_neg Bool.false_ne_true]
      cases stop with
      | false => simp [noTrailing rfl]
      | true =>
          rw [if_pos rfl, Text.trimEnd_append_of_white whiteTrailing,
            Text.trimEnd_eq_self_iff.mpr (last rfl)]
  | true =>
      have start := Text.trimStart_eq_self_iff.mpr (head rfl)
      rw [if_pos rfl, Text.trimStart_append_of_white whiteLeading]
      cases stop with
      | false => simp [noTrailing rfl, start]
      | true =>
          -- The end first: when nothing is kept, the start would take the trailing blanks too.
          rw [if_pos rfl, ← Text.trimStart_trimEnd, Text.trimEnd_append_of_white whiteTrailing,
            Text.trimEnd_eq_self_iff.mpr (last rfl), start]

private theorem strips_trimEnds (start stop : Bool) (text : String) :
    Text.Strips start stop text.toList (trimEnds start stop text).toList := by
  rw [trimEnds, String.toList_ofList]
  obtain ⟨leading, starts, whiteLeading, noLeading⟩ := Text.exists_white_start start text.toList
  obtain ⟨trailing, ends, whiteTrailing, noTrailing⟩ :=
    Text.exists_white_end stop (if start then Text.trimStart text.toList else text.toList)
  refine ⟨⟨leading, trailing, ?_, whiteLeading, whiteTrailing, noLeading, noTrailing⟩, ?_, ?_⟩
  · rw [← ends]
    exact starts
  · rintro rfl
    apply Text.trimStart_eq_self_iff.mp
    cases stop <;> simp [Text.trimStart_trimEnd]
  · rintro rfl
    apply Text.trimEnd_eq_self_iff.mp
    simp

/-- Trimming the ends of a text leaves what the rule leaves, and nothing else is left by it. -/
theorem strips_iff {start stop : Bool} {text kept : String} :
    Text.Strips start stop text.toList kept.toList ↔ kept = trimEnds start stop text := by
  constructor
  · exact eq_trimEnds_of_strips
  · rintro rfl
    exact strips_trimEnds start stop text

namespace Node

/-- The mark on the near side of what follows a text: of the next sibling, and at the end of a
section of the tag that ends it. -/
def markAhead (stop : Bool) : List Node → Bool
  | [] => stop
  | .text _ _ :: _ => false
  | .expression _ _ trim _ :: _ => trim.left
  | .comment _ trim _ :: _ => trim.left
  | .block tags _ _ :: _ => tags.opening.left
  | .partialTag _ _ trim _ :: _ => trim.left

/-- The rule for a section, between what stands right before it and right behind it. -/
inductive TrimsTo : (start stop : Bool) → List Node → List Node → Prop
  | nil (start stop : Bool) : TrimsTo start stop [] []
  | text {start stop : Bool} {content kept : String} (span : Span) {rest after : List Node} :
      Text.Strips start (markAhead stop rest) content.toList kept.toList →
      kept ≠ "" →
      TrimsTo false stop rest after →
      TrimsTo start stop (.text content span :: rest) (.text kept span :: after)
  | emptied {start stop : Bool} {content : String} (span : Span) {rest after : List Node} :
      Text.Strips start (markAhead stop rest) content.toList [] →
      TrimsTo false stop rest after →
      TrimsTo start stop (.text content span :: rest) after
  | expression {start stop : Bool} (path : Path) (escaped : Bool) (trim : Trim) (span : Span)
      {rest after : List Node} :
      TrimsTo trim.right stop rest after →
      TrimsTo start stop (.expression path escaped trim span :: rest)
        (.expression path escaped trim span :: after)
  | comment {start stop : Bool} (content : String) (trim : Trim) (span : Span)
      {rest after : List Node} :
      TrimsTo trim.right stop rest after →
      TrimsTo start stop (.comment content trim span :: rest)
        (.comment content trim span :: after)
  | partialTag {start stop : Bool} (name : String) (scope : Option Path) (trim : Trim)
      (span : Span) {rest after : List Node} :
      TrimsTo trim.right stop rest after →
      TrimsTo start stop (.partialTag name scope trim span :: rest)
        (.partialTag name scope trim span :: after)
  -- The closing tag ends the body, unless a middle tag does.
  | block {start stop : Bool} (tags : BlockTags) {body bodyAfter rest after : List Node} :
      TrimsTo tags.opening.right tags.closing.left body bodyAfter →
      TrimsTo tags.closing.right stop rest after →
      TrimsTo start stop (.block tags body none :: rest) (.block tags bodyAfter none :: after)
  | divided {start stop : Bool} (tags : BlockTags)
      {body bodyAfter inverse inverseAfter rest after : List Node} :
      TrimsTo tags.opening.right tags.middle.left body bodyAfter →
      TrimsTo tags.middle.right tags.closing.left inverse inverseAfter →
      TrimsTo tags.closing.right stop rest after →
      TrimsTo start stop (.block tags body (some inverse) :: rest)
        (.block tags bodyAfter (some inverseAfter) :: after)

private theorem markAhead_eq_trimsAhead (stop : Bool) (nodes : List Node) :
    markAhead stop nodes = trimsAhead stop nodes := by
  cases nodes with
  | nil => rfl
  | cons node rest => cases node <;> rfl

private theorem TrimsTo.eq_trimmedSection
    {start stop : Bool} {nodes after : List Node} (trims : TrimsTo start stop nodes after) :
    after = trimmedSection start stop nodes := by
  induction trims with
  | nil start stop => rw [trimmedSection_nil]
  | text span strips some _ inductionHypothesis =>
      rw [markAhead_eq_trimsAhead, strips_iff] at strips
      rw [trimmedSection_text, ← strips, if_neg (by simpa using some), inductionHypothesis]
  | emptied span strips _ inductionHypothesis =>
      rw [← String.toList_empty, markAhead_eq_trimsAhead, strips_iff] at strips
      rw [trimmedSection_text, ← strips, if_pos (String.isEmpty_iff.mpr rfl),
        inductionHypothesis]
  | expression | comment | partialTag =>
      rename_i inductionHypothesis
      rw [trimmedSection_tag _ _ rfl, inductionHypothesis, trimmed, trimsAfter]
  | block tags _ _ bodyHypothesis restHypothesis =>
      rw [trimmedSection_tag _ _ rfl, trimmed_block, bodyHypothesis, restHypothesis]
      rfl
  | divided tags _ _ _ bodyHypothesis inverseHypothesis restHypothesis =>
      rw [trimmedSection_tag _ _ rfl, trimmed_block, bodyHypothesis, inverseHypothesis,
        restHypothesis]
      rfl

private theorem trimsTo_trimmedSection (start stop : Bool) (nodes : List Node) :
    TrimsTo start stop nodes (trimmedSection start stop nodes) := by
  induction nodes using siblings_induction generalizing start stop with
  | nil =>
      rw [trimmedSection_nil]
      exact .nil start stop
  | text content span rest inductionHypothesis =>
      have strips := strips_trimEnds start (markAhead stop rest) content
      rw [trimmedSection_text, ← markAhead_eq_trimsAhead]
      split
      · rename_i empty
        rw [String.isEmpty_iff.mp empty] at strips
        exact .emptied span strips (inductionHypothesis false stop)
      · rename_i some
        exact .text span strips (by simpa using some) (inductionHypothesis false stop)
  | expression path escaped trim span rest inductionHypothesis =>
      rw [trimmedSection_tag start stop rfl, trimmed]
      exact .expression path escaped trim span (inductionHypothesis trim.right stop)
  | comment content trim span rest inductionHypothesis =>
      rw [trimmedSection_tag start stop rfl, trimmed]
      exact .comment content trim span (inductionHypothesis trim.right stop)
  | partialTag name scope trim span rest inductionHypothesis =>
      rw [trimmedSection_tag start stop rfl, trimmed]
      exact .partialTag name scope trim span (inductionHypothesis trim.right stop)
  | block tags body inverse rest bodyHypothesis inverseHypothesis restHypothesis =>
      rw [trimmedSection_tag start stop rfl, trimmed_block]
      have later := restHypothesis tags.closing.right stop
      cases inverse with
      | none => exact .block tags (bodyHypothesis _ _) later
      | some nodes => exact .divided tags (bodyHypothesis _ _) (inverseHypothesis _ _) later

end Node

namespace Document

/-- The rule for a document. No tag stands around it. -/
def TrimsTo (document kept : Document) : Prop :=
  Node.TrimsTo false false document.nodes kept.nodes

/-- Trimming keeps to the rule at every depth: it gives the one document that the rule leaves, in
which texts have lost their blanks or are gone where the rule says so, and every other mark is as
it was. -/
theorem collapseWhitespace_by_rule (document : Document) :
    (∀ kept : Document, document.TrimsTo kept ↔ kept = document.collapseWhitespace) ∧
      document.collapseWhitespace.marks.filter (fun mark => !mark.isText) =
        document.marks.filter fun mark => !mark.isText := by
  refine ⟨fun kept => ?_, document.respelled_collapseWhitespace_any.filter_marksNodes⟩
  rw [collapseWhitespace_eq_trimmedSection]
  constructor
  · intro trims
    exact congrArg Document.mk trims.eq_trimmedSection
  · rintro rfl
    exact Node.trimsTo_trimmedSection false false document.nodes

end Document

end Stencil
