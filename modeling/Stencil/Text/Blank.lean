/-!
Blank characters and the cuts made at them: trimming the ends of a text and splitting it into
words. A character is blank when Unicode gives it the property White_Space, which holds more
than the ASCII blanks.
-/

namespace Stencil.Text

/-- Code points with the property White_Space, as closed ranges in increasing order. -/
def blankRanges : List (Nat × Nat) :=
  [(0x09, 0x0D), (0x20, 0x20), (0x85, 0x85), (0xA0, 0xA0), (0x1680, 0x1680),
    (0x2000, 0x200A), (0x2028, 0x2029), (0x202F, 0x202F), (0x205F, 0x205F),
    (0x3000, 0x3000)]

def isBlank (c : Char) : Bool :=
  blankRanges.any fun range => range.1 ≤ c.toNat && c.toNat ≤ range.2

/-- There are twenty-five blank characters. -/
example : (blankRanges.map fun range => range.2 + 1 - range.1).sum = 25 := by decide

def trimStart (text : List Char) : List Char :=
  text.dropWhile isBlank

def trimEnd (text : List Char) : List Char :=
  (text.reverse.dropWhile isBlank).reverse

def trim (text : List Char) : List Char :=
  trimEnd (trimStart text)

theorem trimStart_cons_of_isBlank {c : Char} (blank : isBlank c = true) (rest : List Char) :
    trimStart (c :: rest) = trimStart rest := by
  simp [trimStart, blank]

theorem trimStart_cons_of_not_isBlank {c : Char} (solid : isBlank c = false)
    (rest : List Char) :
    trimStart (c :: rest) = c :: rest := by
  simp [trimStart, solid]

theorem trimEnd_append_of_isBlank {c : Char} (blank : isBlank c = true) (start : List Char) :
    trimEnd (start ++ [c]) = trimEnd start := by
  simp [trimEnd, blank]

theorem trimEnd_append_of_not_isBlank {c : Char} (solid : isBlank c = false)
    (start : List Char) :
    trimEnd (start ++ [c]) = start ++ [c] := by
  simp [trimEnd, solid]

/-- The pieces of a text between the characters that `separates` accepts; one piece more than
there are such characters, and any of them may be empty. -/
def fields (separates : Char → Bool) : List Char → List (List Char)
  | [] => [[]]
  | c :: rest =>
      if separates c then
        [] :: fields separates rest
      else
        match fields separates rest with
        | [] => [[c]]
        | piece :: pieces => (c :: piece) :: pieces

/-- The maximal runs of characters that are not blank. -/
def words (text : List Char) : List (List Char) :=
  (fields isBlank text).filter fun piece => !piece.isEmpty

theorem fields_ne_nil (separates : Char → Bool) (text : List Char) :
    fields separates text ≠ [] := by
  cases text with
  | nil => simp [fields]
  | cons c rest =>
      unfold fields
      split
      · simp
      · split <;> simp

theorem not_separates_of_mem_fields {separates : Char → Bool} {text piece : List Char}
    (member : piece ∈ fields separates text) {c : Char} (inside : c ∈ piece) :
    separates c = false := by
  induction text generalizing piece with
  | nil =>
      simp only [fields, List.mem_singleton] at member
      simp [member] at inside
  | cons head rest inductionHypothesis =>
      by_cases headSeparates : separates head = true
      · simp only [fields, headSeparates, if_true, List.mem_cons] at member
        rcases member with rfl | member
        · simp at inside
        · exact inductionHypothesis member inside
      · have solid : separates head = false := by simpa using headSeparates
        obtain ⟨first, others, equality⟩ :=
          List.exists_cons_of_ne_nil (fields_ne_nil separates rest)
        simp only [fields, solid, equality, Bool.false_eq_true, if_false,
          List.mem_cons] at member
        rcases member with rfl | member
        · rcases List.mem_cons.mp inside with rfl | inside
          · exact solid
          · exact inductionHypothesis (by simp [equality]) inside
        · exact inductionHypothesis (by simp [equality, member]) inside

end Stencil.Text
