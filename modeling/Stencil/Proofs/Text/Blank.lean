import Mathlib.Data.List.DropRight
import Stencil.Text.Blank

/-!
Texts put together from solid parts: how they are split again, and what trimming leaves of them.
-/

namespace Stencil.Text

theorem fields_of_solid
    {separates : Char → Bool} {text : List Char}
    (solid : ∀ c ∈ text, separates c = false) :
    fields separates text = [text] := by
  induction text with
  | nil => rfl
  | cons c rest inductionHypothesis =>
      have restFields := inductionHypothesis fun d member =>
        solid d (List.mem_cons_of_mem c member)
      rw [fields, solid c List.mem_cons_self, restFields]
      rfl

theorem fields_append_cons
    {separates : Char → Bool} {separator : Char} (separating : separates separator = true)
    (text rest : List Char) :
    fields separates (text ++ separator :: rest) =
      fields separates text ++ fields separates rest := by
  induction text with
  | nil =>
      rw [List.nil_append, fields.eq_2, if_pos separating]
      rfl
  | cons c others inductionHypothesis =>
      rw [List.cons_append, fields, inductionHypothesis, fields]
      obtain ⟨piece, pieces, split⟩ :=
        List.exists_cons_of_ne_nil (fields_ne_nil separates others)
      rw [split]
      split <;> rfl

theorem fields_append_separator
    {separates : Char → Bool} {text : List Char} {separator : Char}
    (solid : ∀ c ∈ text, separates c = false) (separating : separates separator = true)
    (rest : List Char) :
    fields separates (text ++ separator :: rest) = text :: fields separates rest := by
  rw [fields_append_cons separating, fields_of_solid solid, List.singleton_append]

/-- The first piece of a text is all of it, or a separator follows it. -/
theorem cases_of_fields_eq_cons
    {separates : Char → Bool} {text piece : List Char} {pieces : List (List Char)}
    (split : fields separates text = piece :: pieces) :
    (pieces = [] ∧ text = piece) ∨
      ∃ separator rest, separates separator = true ∧ text = piece ++ separator :: rest ∧
        fields separates rest = pieces := by
  induction text generalizing piece with
  | nil =>
      obtain ⟨rfl, rfl⟩ := List.cons.inj split
      exact .inl ⟨rfl, rfl⟩
  | cons c rest inductionHypothesis =>
      rw [fields] at split
      by_cases separating : separates c = true
      · rw [if_pos separating] at split
        obtain ⟨rfl, restSplit⟩ := List.cons.inj split
        exact .inr ⟨c, rest, separating, rfl, restSplit⟩
      · obtain ⟨first, others, restSplit⟩ :=
          List.exists_cons_of_ne_nil (fields_ne_nil separates rest)
        rw [if_neg separating, restSplit] at split
        obtain ⟨rfl, rfl⟩ := List.cons.inj split
        rcases inductionHypothesis restSplit with
          ⟨alone, rfl⟩ | ⟨separator, after, separates, rfl, afterSplit⟩
        · exact .inl ⟨alone, rfl⟩
        · exact .inr ⟨separator, after, separates, rfl, afterSplit⟩

private theorem fields_flatMap
    {separates : Char → Bool} {separator : Char} (separating : separates separator = true)
    {text : List Char} {pieces : List (List Char)}
    (solid : ∀ c ∈ text, separates c = false)
    (solidPieces : ∀ piece ∈ pieces, ∀ c ∈ piece, separates c = false) :
    fields separates (text ++ pieces.flatMap (separator :: ·)) = text :: pieces := by
  induction pieces generalizing text with
  | nil =>
      rw [List.flatMap_nil, List.append_nil]
      exact fields_of_solid solid
  | cons piece rest inductionHypothesis =>
      rw [List.flatMap_cons, List.cons_append, fields_append_separator solid separating,
        inductionHypothesis (solidPieces piece List.mem_cons_self)
          fun other member => solidPieces other (List.mem_cons_of_mem piece member)]

/-- Solid pieces with single blanks between them are the words of the whole. -/
theorem words_flatMap
    {text : List Char} {pieces : List (List Char)}
    (nonempty : text ≠ []) (solid : ∀ c ∈ text, isBlank c = false)
    (nonemptyPieces : ∀ piece ∈ pieces, piece ≠ [])
    (solidPieces : ∀ piece ∈ pieces, ∀ c ∈ piece, isBlank c = false) :
    words (text ++ pieces.flatMap (' ' :: ·)) = text :: pieces := by
  have blank : isBlank ' ' = true := by decide
  rw [words, fields_flatMap blank solid solidPieces, List.filter_eq_self]
  intro piece member
  have some : piece ≠ [] := by
    rcases List.mem_cons.mp member with rfl | member
    · exact nonempty
    · exact nonemptyPieces piece member
  simpa using some

/-- No blank stands at either end. -/
def Trimmed (text : List Char) : Prop :=
  trim text = text

private theorem Trimmed.trimStart_eq {text : List Char} (trimmed : Trimmed text) :
    trimStart text = text := by
  have shorter : (trimEnd (trimStart text)).length ≤ (trimStart text).length := by
    rw [trimEnd, List.length_reverse]
    have dropped : ((trimStart text).reverse.dropWhile isBlank).length ≤
        (trimStart text).reverse.length := (List.dropWhile_sublist _).length_le
    rwa [List.length_reverse] at dropped
  have same : text.length ≤ (trimStart text).length := by
    rw [← congrArg List.length trimmed]
    exact shorter
  exact (List.dropWhile_suffix isBlank).eq_of_length_le same

private theorem Trimmed.trimEnd_eq {text : List Char} (trimmed : Trimmed text) :
    trimEnd text = text := by
  have start := trimmed.trimStart_eq
  unfold Trimmed trim at trimmed
  rwa [start] at trimmed

private theorem Trimmed.not_isBlank_head
    {c : Char} {rest : List Char} (trimmed : Trimmed (c :: rest)) :
    isBlank c = false := by
  cases blank : isBlank c with
  | false => rfl
  | true =>
      have start := trimmed.trimStart_eq
      rw [trimStart_cons_of_isBlank blank] at start
      have shorter := (List.dropWhile_sublist (p := isBlank) (l := rest)).length_le
      have same := congrArg List.length start
      rw [List.length_cons] at same
      unfold trimStart at same
      omega

private theorem Trimmed.not_isBlank_last
    {start : List Char} {c : Char} (trimmed : Trimmed (start ++ [c])) :
    isBlank c = false := by
  cases blank : isBlank c with
  | false => rfl
  | true =>
      have finish := trimmed.trimEnd_eq
      rw [trimEnd_append_of_isBlank blank] at finish
      have shorter := (List.dropWhile_sublist (p := isBlank) (l := start.reverse)).length_le
      have same := congrArg List.length finish
      rw [trimEnd, List.length_reverse, List.length_append] at same
      rw [List.length_reverse] at shorter
      simp only [List.length_singleton] at same
      omega

private theorem trimEnd_append_of_trimmed
    (start : List Char) {text : List Char} (nonempty : text ≠ []) (trimmed : Trimmed text) :
    trimEnd (start ++ text) = start ++ text := by
  have split := List.dropLast_concat_getLast nonempty
  rw [← split] at trimmed
  rw [← split, ← List.append_assoc]
  exact trimEnd_append_of_not_isBlank trimmed.not_isBlank_last _

theorem trim_spaced {text : List Char} (trimmed : Trimmed text) :
    trim (' ' :: (text ++ [' '])) = text := by
  have blank : isBlank ' ' = true := by decide
  rw [trim, trimStart_cons_of_isBlank blank]
  cases text with
  | nil =>
      rw [List.nil_append, trimStart_cons_of_isBlank blank]
      rfl
  | cons c rest =>
      rw [List.cons_append, trimStart_cons_of_not_isBlank trimmed.not_isBlank_head,
        ← List.cons_append, trimEnd_append_of_isBlank blank]
      exact trimmed.trimEnd_eq

theorem trim_signed
    {sign : Char} (solid : isBlank sign = false) {text : List Char} (nonempty : text ≠ [])
    (trimmed : Trimmed text) :
    trim (sign :: ' ' :: (text ++ [' '])) = sign :: ' ' :: text := by
  have blank : isBlank ' ' = true := by decide
  have split : sign :: ' ' :: (text ++ [' ']) = ([sign, ' '] ++ text) ++ [' '] := by simp
  rw [trim, trimStart_cons_of_not_isBlank solid, split, trimEnd_append_of_isBlank blank]
  exact trimEnd_append_of_trimmed [sign, ' '] nonempty trimmed

theorem trim_cons_space {text : List Char} (trimmed : Trimmed text) :
    trim (' ' :: text) = text := by
  have blank : isBlank ' ' = true := by decide
  rw [trim, trimStart_cons_of_isBlank blank]
  exact trimmed

private theorem trimmed_of_solid_ends
    {text : List Char} (head : ∀ c rest, text = c :: rest → isBlank c = false)
    (last : ∀ start c, text = start ++ [c] → isBlank c = false) :
    Trimmed text := by
  cases text with
  | nil => rfl
  | cons c rest =>
      have split := List.dropLast_concat_getLast (List.cons_ne_nil c rest)
      unfold Trimmed
      rw [trim, trimStart_cons_of_not_isBlank (head c rest rfl), ← split]
      exact trimEnd_append_of_not_isBlank (last _ _ split.symm) _

theorem trimmed_of_solid
    {text : List Char} (solid : ∀ c ∈ text, isBlank c = false) :
    Trimmed text :=
  trimmed_of_solid_ends
    (fun c rest equal => solid c (by rw [equal]; exact List.mem_cons_self))
    (fun start c equal => solid c (by rw [equal]; exact List.mem_concat_self))

theorem Trimmed.append_space
    {first second : List Char} (firstTrimmed : Trimmed first) (secondTrimmed : Trimmed second)
    (firstSome : first ≠ []) (secondSome : second ≠ []) :
    Trimmed (first ++ ' ' :: second) := by
  obtain ⟨c, rest, rfl⟩ := List.exists_cons_of_ne_nil firstSome
  unfold Trimmed
  have split : (c :: rest) ++ ' ' :: second = ((c :: rest) ++ [' ']) ++ second := by simp
  rw [trim, List.cons_append, trimStart_cons_of_not_isBlank firstTrimmed.not_isBlank_head,
    ← List.cons_append, split]
  exact trimEnd_append_of_trimmed _ secondSome secondTrimmed

private theorem trimEnd_cons (c : Char) (rest : List Char) :
    trimEnd (c :: rest) =
      if trimEnd rest = [] ∧ isBlank c = true then [] else c :: trimEnd rest := by
  unfold trimEnd
  rw [List.reverse_cons, List.dropWhile_append]
  cases kept : rest.reverse.dropWhile isBlank with
  | nil =>
      cases blank : isBlank c with
      | true => simp [blank]
      | false => simp [blank]
  | cons last others => simp

@[simp] theorem trimStart_trimStart (text : List Char) :
    trimStart (trimStart text) = trimStart text :=
  List.dropWhile_idempotent ..

@[simp] theorem trimEnd_trimEnd (text : List Char) :
    trimEnd (trimEnd text) = trimEnd text := by
  rw [trimEnd, trimEnd, List.reverse_reverse, List.dropWhile_idempotent]

/-- It does not matter which end is trimmed first. -/
theorem trimStart_trimEnd (text : List Char) :
    trimStart (trimEnd text) = trimEnd (trimStart text) := by
  induction text with
  | nil => rfl
  | cons c rest inductionHypothesis =>
      rw [trimEnd_cons]
      cases blank : isBlank c with
      | true =>
          rw [trimStart_cons_of_isBlank blank, ← inductionHypothesis]
          by_cases empty : trimEnd rest = []
          · rw [if_pos ⟨empty, rfl⟩, empty]
          · rw [if_neg fun both => empty both.1, trimStart_cons_of_isBlank blank]
      | false =>
          have solid : ¬ (trimEnd rest = [] ∧ false = true) := fun both => nomatch both.2
          rw [trimStart_cons_of_not_isBlank blank, if_neg solid,
            trimStart_cons_of_not_isBlank blank, trimEnd_cons, blank, if_neg solid]

theorem trim_within (text : List Char) : trim text <:+: text := by
  have atEnd : trim text <+: trimStart text := by
    have suffix := List.dropWhile_suffix isBlank (l := (trimStart text).reverse)
    rw [trim, trimEnd, ← List.reverse_suffix, List.reverse_reverse]
    exact suffix
  exact atEnd.isInfix.trans (List.dropWhile_suffix isBlank).isInfix

def solidChars (text : List Char) : List Char :=
  text.filter fun c => !isBlank c

theorem solidChars_append (first second : List Char) :
    solidChars (first ++ second) = solidChars first ++ solidChars second :=
  List.filter_append ..

@[simp] theorem solidChars_trimStart (text : List Char) :
    solidChars (trimStart text) = solidChars text := by
  induction text with
  | nil => rfl
  | cons c rest inductionHypothesis =>
      cases blank : isBlank c with
      | true =>
          rw [trimStart_cons_of_isBlank blank, inductionHypothesis, solidChars, solidChars,
            List.filter_cons_of_neg]
          simp [blank]
      | false => rw [trimStart_cons_of_not_isBlank blank]

@[simp] theorem solidChars_trimEnd (text : List Char) :
    solidChars (trimEnd text) = solidChars text := by
  rw [trimEnd, ← trimStart, solidChars, List.filter_reverse, ← solidChars,
    solidChars_trimStart, solidChars, List.filter_reverse, List.reverse_reverse, solidChars]

end Stencil.Text
