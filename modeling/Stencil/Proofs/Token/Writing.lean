import Stencil.Proofs.Text.Blank
import Stencil.Proofs.Token.Cut

/-!
Tags written out, with single blanks inside the delimiters. A tag is cut off exactly where it
was meant to end, whatever follows it.
-/

namespace Stencil.Token

def trimMark (marked : Bool) : List Char :=
  if marked then ['~'] else []

def tagText (trim : Trim) (sign content : List Char) : List Char :=
  '{' :: '{' :: (trimMark trim.left ++
    (sign ++ ' ' :: (content ++ ' ' :: (trimMark trim.right ++ ['}', '}']))))

def remarkText (trim : Trim) (content : List Char) : List Char :=
  '{' :: '{' :: (trimMark trim.left ++ '!' :: '-' :: '-' :: ' ' ::
    (content ++ ' ' :: '-' :: '-' :: (trimMark trim.right ++ ['}', '}'])))

/-- A sign, or none: at most one character, and not one that has a meaning of its own at the
start of a tag. -/
def IsSign (sign : List Char) : Prop :=
  sign = [] ∨ ∃ c, sign = [c] ∧ c ≠ '~' ∧ c ≠ '{' ∧ c ≠ '}' ∧ c ≠ '!'

/-- No two braces of a kind follow one another. -/
structure Braceless (text : List Char) : Prop where
  noOpening : ¬ ['{', '{'] <:+: text
  noClosing : ¬ ['}', '}'] <:+: text

private theorem readMarks_trimMark
    (marked : Bool) {c : Char} {rest : List Char} (noMark : c ≠ '~') (noBrace : c ≠ '{') :
    readMarks (trimMark marked ++ c :: rest) = (⟨trimMark marked, marked, false⟩, c :: rest) := by
  cases marked with
  | false =>
      rw [trimMark, if_neg Bool.false_ne_true, List.nil_append]
      unfold readMarks
      split <;> simp_all
  | true =>
      rw [trimMark, if_pos rfl, List.singleton_append]
      unfold readMarks
      split <;> simp_all

private theorem readOpening_plain
    (marked : Bool) {c : Char} {rest : List Char}
    (noMark : c ≠ '~') (noBrace : c ≠ '{') (noRemark : c ≠ '!') :
    readOpening (trimMark marked ++ c :: rest) =
      (⟨'{' :: '{' :: trimMark marked, .plain, marked⟩, c :: rest) := by
  have sign : readSign (c :: rest) = (([], .plain), c :: rest) := by
    unfold readSign
    split <;> simp_all
  simp only [readOpening, readMarks_trimMark marked noMark noBrace, sign, Bool.false_eq_true,
    if_false, List.append_nil]

private theorem readOpening_longRemark (marked : Bool) (rest : List Char) :
    readOpening (trimMark marked ++ '!' :: '-' :: '-' :: rest) =
      (⟨'{' :: '{' :: (trimMark marked ++ ['!', '-', '-']), .longRemark, marked⟩, rest) := by
  have noMark : '!' ≠ '~' := by decide
  have noBrace : '!' ≠ '{' := by decide
  simp only [readOpening, readMarks_trimMark marked noMark noBrace, readSign,
    Bool.false_eq_true, if_false]

theorem Braceless.signed
    {sign content : List Char} (isSign : IsSign sign) (braceless : Braceless content) :
    Braceless (sign ++ ' ' :: content) := by
  have alone (pair : Char) : ¬ [pair, pair] <:+: sign := by
    intro inside
    have short := inside.length_le
    rcases isSign with rfl | ⟨c, rfl, _⟩ <;> simp at short
  constructor
  · intro inside
    rcases pair_infix_append_cons (by decide) inside with inside | inside
    · exact alone '{' inside
    · exact braceless.noOpening inside
  · intro inside
    rcases pair_infix_append_cons (by decide) inside with inside | inside
    · exact alone '}' inside
    · exact braceless.noClosing inside

private theorem Braceless.append_blank
    {content : List Char} (braceless : Braceless content) :
    Braceless (content ++ [' ']) := by
  constructor
  · intro inside
    rcases pair_infix_append_cons (by decide) inside with inside | inside
    · exact braceless.noOpening inside
    · exact absurd (List.eq_nil_of_infix_nil inside) (by simp)
  · intro inside
    rcases pair_infix_append_cons (by decide) inside with inside | inside
    · exact braceless.noClosing inside
    · exact absurd (List.eq_nil_of_infix_nil inside) (by simp)

theorem Braceless.append_space
    {first second : List Char} (firstBraceless : Braceless first)
    (secondBraceless : Braceless second) :
    Braceless (first ++ ' ' :: second) := by
  constructor
  · intro inside
    rcases pair_infix_append_cons (by decide) inside with inside | inside
    · exact firstBraceless.noOpening inside
    · exact secondBraceless.noOpening inside
  · intro inside
    rcases pair_infix_append_cons (by decide) inside with inside | inside
    · exact firstBraceless.noClosing inside
    · exact secondBraceless.noClosing inside

theorem braceless_of_noBrace
    {text : List Char} (noBrace : ∀ c ∈ text, c ≠ '{' ∧ c ≠ '}') :
    Braceless text :=
  ⟨fun inside => (noBrace '{' (inside.subset List.mem_cons_self)).1 rfl,
    fun inside => (noBrace '}' (inside.subset List.mem_cons_self)).2 rfl⟩

private theorem cut_plain
    {body : List Char} (braceless : Braceless body) {last : Char}
    (noOpening : last ≠ '{') (noClosing : last ≠ '}') (after : List Char) :
    cut .plain (body ++ last :: '}' :: '}' :: after) =
      some (body ++ [last], ⟨['}', '}'], false⟩, after) := by
  have alone {other : Terminator} (member : other ∈ Form.plain.terminators) :
      other.text = ['}', '}'] := by
    rw [List.mem_singleton.mp member]
  have here :
      terminator? Form.plain.terminators
          ((⟨['}', '}'], false⟩ : Terminator).text ++ after) =
        some (⟨['}', '}'], false⟩, after) := rfl
  refine cut_append here (List.cons_ne_nil _ _) ?_ noOpening ?_ fun _ => braceless.noOpening
  · intro other member
    rw [alone member]
    simp [noClosing]
  · intro other member
    rw [alone member]
    exact braceless.noClosing

private theorem cut_plain_trimMark
    {body : List Char} (braceless : Braceless body) (marked : Bool) (after : List Char) :
    cut .plain (body ++ ' ' :: (trimMark marked ++ '}' :: '}' :: after)) =
      some (body ++ ' ' :: trimMark marked, ⟨['}', '}'], false⟩, after) := by
  cases marked with
  | false => exact cut_plain braceless (by decide) (by decide) after
  | true =>
      have found : cut .plain ((body ++ [' ']) ++ '~' :: '}' :: '}' :: after) = _ :=
        cut_plain braceless.append_blank (by decide) (by decide) after
      simpa [trimMark] using found

private theorem readEnd_plain (body : List Char) (marked : Bool) (text : List Char) :
    readEnd .plain (body ++ ' ' :: trimMark marked) ⟨text, false⟩ =
      (body ++ [' '], marked) := by
  cases marked with
  | false =>
      have last : (body ++ ' ' :: trimMark false).getLast? = some ' ' := List.getLast?_concat
      rw [readEnd, last]
      rfl
  | true =>
      have split : body ++ ' ' :: trimMark true = (body ++ [' ']) ++ ['~'] := by simp [trimMark]
      have last : ((body ++ [' ']) ++ ['~']).getLast? = some '~' := List.getLast?_concat
      rw [readEnd, split, last, List.dropLast_concat]
      rfl

def remarkTerminator (marked : Bool) : Terminator :=
  ⟨'-' :: '-' :: (trimMark marked ++ ['}', '}']), marked⟩

private theorem cut_longRemark
    {body : List Char} (clear : ∀ marked, ¬ (remarkTerminator marked).text <:+: body)
    (marked : Bool) (after : List Char) :
    cut .longRemark (body ++ ' ' :: ((remarkTerminator marked).text ++ after)) =
      some (body ++ [' '], remarkTerminator marked, after) := by
  have terminators :
      Form.longRemark.terminators = [remarkTerminator false, remarkTerminator true] := rfl
  have here :
      terminator? Form.longRemark.terminators ((remarkTerminator marked).text ++ after) =
        some (remarkTerminator marked, after) := by
    cases marked <;> rfl
  refine cut_append here (by simp [remarkTerminator]) ?_ (by decide) ?_ fun remark => ?_
  · intro other member
    rw [terminators] at member
    simp only [List.mem_cons, List.not_mem_nil, or_false] at member
    rcases member with rfl | rfl <;> decide
  · intro other member
    rw [terminators] at member
    simp only [List.mem_cons, List.not_mem_nil, or_false] at member
    rcases member with rfl | rfl
    · exact clear false
    · exact clear true
  · exact Bool.noConfusion remark

theorem words_of_pieces
    {first : String} {others : List String} (nonempty : ∀ word ∈ first :: others, word ≠ "")
    (solid : ∀ word ∈ first :: others, ∀ c ∈ word.toList, Text.isBlank c = false)
    {token : Token}
    (lexeme : token.lexeme.toList =
      first.toList ++ (others.map String.toList).flatMap (' ' :: ·)) :
    token.words = first :: others := by
  have some {word : String} (member : word ∈ first :: others) : word.toList ≠ [] := by
    intro empty
    apply nonempty word member
    rw [← String.ofList_toList (s := word), empty, String.ofList_nil]
  have somePieces : ∀ piece ∈ others.map String.toList, piece ≠ [] := by
    intro piece mapped
    obtain ⟨word, listed, rfl⟩ := List.mem_map.mp mapped
    exact some (List.mem_cons_of_mem first listed)
  have solidPieces :
      ∀ piece ∈ others.map String.toList, ∀ c ∈ piece, Text.isBlank c = false := by
    intro piece mapped
    obtain ⟨word, listed, rfl⟩ := List.mem_map.mp mapped
    exact solid word (List.mem_cons_of_mem first listed)
  rw [words, lexeme, Text.words_flatMap (some List.mem_cons_self)
    (solid first List.mem_cons_self) somePieces solidPieces, List.map_cons,
    String.ofList_toList, List.map_map]
  simp [Function.comp_def]

/-- A tag is read back as its sign and its content say, and what follows it stays. -/
theorem readPiece_tagText
    (trim : Trim) {sign content : List Char} (isSign : IsSign sign)
    (braceless : Braceless content) (rest : List Char) :
    readPiece (tagText trim sign content ++ rest) =
      (⟨(classify (Text.trim (sign ++ ' ' :: (content ++ [' '])))).1,
        (classify (Text.trim (sign ++ ' ' :: (content ++ [' '])))).2, trim,
        tagText trim sign content⟩, rest) := by
  obtain ⟨left, right⟩ := trim
  let inside := (sign ++ ' ' :: content) ++ ' ' :: (trimMark right ++ '}' :: '}' :: rest)
  have opened : readOpening (trimMark left ++ inside) =
      (⟨'{' :: '{' :: trimMark left, .plain, left⟩, inside) := by
    rcases isSign with rfl | ⟨c, rfl, noMark, noBrace, _, noRemark⟩
    · exact readOpening_plain left (by decide) (by decide) (by decide)
    · exact readOpening_plain left noMark noBrace noRemark
  have found := cut_plain_trimMark (braceless.signed isSign) right rest
  have unmarked := readEnd_plain (sign ++ ' ' :: content) right ['}', '}']
  have source : tagText ⟨left, right⟩ sign content ++ rest =
      '{' :: '{' :: (trimMark left ++ inside) := by
    simp [tagText, inside]
  have trimmed : (sign ++ ' ' :: content) ++ [' '] = sign ++ ' ' :: (content ++ [' ']) := by
    simp
  rw [source, readPiece, readTag_of_cut opened found, tagPiece, unmarked, trimmed]
  simp [interpret, tagText]

theorem readPiece_remarkText
    (trim : Trim) {content : List Char}
    (clear : ∀ marked, ¬ (remarkTerminator marked).text <:+: content)
    (trimmed : Text.Trimmed content) (rest : List Char) :
    readPiece (remarkText trim content ++ rest) =
      (⟨.comment, content, trim, remarkText trim content⟩, rest) := by
  obtain ⟨left, right⟩ := trim
  let inside := (' ' :: content) ++ ' ' :: ((remarkTerminator right).text ++ rest)
  have opened := readOpening_longRemark left inside
  have clearBody (marked : Bool) : ¬ (remarkTerminator marked).text <:+: ' ' :: content := by
    intro infix'
    rcases List.infix_cons_iff.mp infix' with starts | later
    · exact absurd (List.cons_prefix_cons.mp starts).1 (by decide)
    · exact clear marked later
  have found := cut_longRemark clearBody right rest
  have source : remarkText ⟨left, right⟩ content ++ rest =
      '{' :: '{' :: (trimMark left ++ '!' :: '-' :: '-' :: inside) := by
    simp [remarkText, remarkTerminator, inside]
  have spaced := Text.trim_spaced trimmed
  rw [source, readPiece, readTag_of_cut opened found]
  simp [tagPiece, readEnd, Form.marksBody, interpret, spaced, remarkText, remarkTerminator]

end Stencil.Token
