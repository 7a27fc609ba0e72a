import Stencil.Token.Basic

/-!
Cutting a template source into tokens. The source falls into pieces, each a run of text up to
the next `{{` or a tag that starts there; laid end to end the pieces give the source back. A
token is a piece at its place.

A tag ends at the first of the terminators of its form. In a tag that is not a comment, a `{{`
before that terminator, like a missing terminator, makes the tag unterminated; the next piece
then starts at the next `{{`. An unterminated comment takes up the rest of the source.
-/

namespace Stencil.Token

/-- The forms of a tag: they differ in how the tag ends. -/
inductive Form where
  | plain
  | raw
  | remark
  | longRemark
deriving DecidableEq, Repr

/-- A terminator, and whether it holds a trim mark. -/
structure Terminator where
  text : List Char
  marked : Bool
deriving DecidableEq, Repr

namespace Form

/-- The terminators of a form; at most one of them starts at a given place. -/
def terminators : Form → List Terminator
  | .plain | .remark => [⟨['}', '}'], false⟩]
  | .raw => [⟨['}', '}', '}'], false⟩, ⟨['}', '~', '}', '}'], true⟩]
  | .longRemark => [⟨['-', '-', '}', '}'], false⟩, ⟨['-', '-', '~', '}', '}'], true⟩]

def isRemark : Form → Bool
  | .plain | .raw => false
  | .remark | .longRemark => true

/-- Whether a `~` at the end of the body is a trim mark. -/
def marksBody : Form → Bool
  | .longRemark => false
  | _ => true

end Form

def opensTag : List Char → Bool
  | '{' :: '{' :: _ => true
  | _ => false

/-- The text before the next opening of a tag, and the text from there. -/
def upToTag : List Char → List Char × List Char
  | [] => ([], [])
  | c :: rest =>
      if opensTag (c :: rest) then ([], c :: rest)
      else
        let (before, after) := upToTag rest
        (c :: before, after)

def after? : List Char → List Char → Option (List Char)
  | [], text => some text
  | _ :: _, [] => none
  | c :: start, d :: text => if c = d then after? start text else none

def terminator? : List Terminator → List Char → Option (Terminator × List Char)
  | [], _ => none
  | terminator :: others, text =>
      match after? terminator.text text with
      | some after => some (terminator, after)
      | none => terminator? others text

/-- The text before the first terminator of a form, that terminator, and the text after it.
Outside comments no tag may open before it. -/
def cut (form : Form) : List Char → Option (List Char × Terminator × List Char)
  | [] => none
  | c :: rest =>
      match terminator? form.terminators (c :: rest) with
      | some (terminator, after) => some ([], terminator, after)
      | none =>
          if !form.isRemark && opensTag (c :: rest) then
            none
          else
            (cut form rest).map fun (body, terminator, after) => (c :: body, terminator, after)

structure Opening where
  text : List Char
  form : Form
  marked : Bool
deriving DecidableEq, Repr

/-- What may stand between the two braces of a tag and its body or sign: a trim mark and a
third brace, in either order. -/
structure Marks where
  text : List Char
  marked : Bool
  raw : Bool
deriving DecidableEq, Repr

def readMarks : List Char → Marks × List Char
  | '~' :: '{' :: rest => (⟨['~', '{'], true, true⟩, rest)
  | '~' :: rest => (⟨['~'], true, false⟩, rest)
  | '{' :: '~' :: rest => (⟨['{', '~'], true, true⟩, rest)
  | '{' :: rest => (⟨['{'], false, true⟩, rest)
  | rest => (⟨[], false, false⟩, rest)

def readSign : List Char → (List Char × Form) × List Char
  | '!' :: '-' :: '-' :: rest => ((['!', '-', '-'], .longRemark), rest)
  | '!' :: rest => ((['!'], .remark), rest)
  | rest => (([], .plain), rest)

def readOpening (text : List Char) : Opening × List Char :=
  let (marks, rest) := readMarks text
  if marks.raw then
    (⟨'{' :: '{' :: marks.text, .raw, marks.marked⟩, rest)
  else
    let (sign, rest) := readSign rest
    (⟨'{' :: '{' :: (marks.text ++ sign.1), sign.2, marks.marked⟩, rest)

private theorem readMarks_tiles (text : List Char) :
    (readMarks text).1.text ++ (readMarks text).2 = text := by
  unfold readMarks
  split <;> rfl

private theorem readSign_tiles (text : List Char) :
    (readSign text).1.1 ++ (readSign text).2 = text := by
  unfold readSign
  split <;> rfl

theorem readOpening_tiles (text : List Char) :
    (readOpening text).1.text ++ (readOpening text).2 = '{' :: '{' :: text := by
  have marks := readMarks_tiles text
  have sign := readSign_tiles (readMarks text).2
  simp only [readOpening]
  split
  · simp [marks]
  · simp [sign, marks]

private theorem readOpening_text_ne_nil (text : List Char) :
    (readOpening text).1.text ≠ [] := by
  simp only [readOpening]
  split <;> simp

/-! ## Pieces -/

/-- A stretch of source that becomes one token. -/
structure Piece where
  kind : Kind
  lexeme : List Char
  trim : Trim
  source : List Char
deriving DecidableEq, Repr

/-- The number of bytes that the token of a piece covers: all of the piece, but of a tag that
could not be delimited only its start. -/
def Piece.length (piece : Piece) : UInt32 :=
  match piece.kind with
  | .unterminatedTag => 2
  | .unterminatedComment => 3
  | _ => UInt32.ofNat (byteLength piece.source)

/-- The kind and the lexeme of a plain tag from its trimmed body: a sign at its start tells the
kind. -/
def classify : List Char → Kind × List Char
  | '#' :: rest => (.blockOpen, Text.trim rest)
  | '/' :: rest => (.blockClose, Text.trim rest)
  | '>' :: rest => (.partialTag, Text.trim rest)
  | '&' :: rest => (.raw, Text.trim rest)
  | '^' :: rest => (.elseTag, Text.trim rest)
  | ['e', 'l', 's', 'e'] => (.elseTag, [])
  | body => (.escaped, body)

def interpret : Form → List Char → Kind × List Char
  | .plain, body => classify (Text.trim body)
  | .raw, body => (.raw, Text.trim body)
  | .remark, body | .longRemark, body => (.comment, Text.trim body)

/-- The body of a tag without the trim mark at its end, and whether the end of the tag has one
there or in its terminator. -/
def readEnd (form : Form) (body : List Char) (terminator : Terminator) : List Char × Bool :=
  if form.marksBody && body.getLast? == some '~' then
    (body.dropLast, true)
  else
    (body, terminator.marked)

def tagPiece (opening : Opening) (body : List Char) (terminator : Terminator) : Piece :=
  let (content, markedAfter) := readEnd opening.form body terminator
  let (kind, lexeme) := interpret opening.form content
  { kind, lexeme
    trim := ⟨opening.marked, markedAfter⟩
    source := opening.text ++ body ++ terminator.text }

def readTag (text : List Char) : Piece × List Char :=
  let (opening, rest) := readOpening text
  match cut opening.form rest with
  | some (body, terminator, after) => (tagPiece opening body terminator, after)
  | none =>
      if opening.form.isRemark then
        (⟨.unterminatedComment, [], .unmarked, opening.text ++ rest⟩, [])
      else
        let (skipped, after) := upToTag rest
        (⟨.unterminatedTag, [], .unmarked, opening.text ++ skipped⟩, after)

def readPiece : List Char → Piece × List Char
  | '{' :: '{' :: rest => readTag rest
  | text =>
      let (run, after) := upToTag text
      (⟨.text, run, .unmarked, run⟩, after)

theorem upToTag_tiles (text : List Char) :
    (upToTag text).1 ++ (upToTag text).2 = text := by
  induction text with
  | nil => rfl
  | cons c rest inductionHypothesis =>
      unfold upToTag
      split
      · rfl
      · simp [inductionHypothesis]

theorem after?_tiles {start text after : List Char}
    (found : after? start text = some after) :
    text = start ++ after := by
  induction start generalizing text with
  | nil => simpa [after?] using found
  | cons c start inductionHypothesis =>
      cases text with
      | nil => simp [after?] at found
      | cons d text =>
          simp only [after?] at found
          split at found
          · rename_i same
            rw [inductionHypothesis found, same]
            rfl
          · simp at found

theorem terminator?_tiles {terminators : List Terminator} {text : List Char}
    {terminator : Terminator} {after : List Char}
    (found : terminator? terminators text = some (terminator, after)) :
    text = terminator.text ++ after := by
  induction terminators with
  | nil => simp [terminator?] at found
  | cons first others inductionHypothesis =>
      unfold terminator? at found
      split at found
      · rename_i rest here
        simp only [Option.some.injEq, Prod.mk.injEq] at found
        obtain ⟨rfl, rfl⟩ := found
        exact after?_tiles here
      · exact inductionHypothesis found

theorem cut_tiles {form : Form} {text body after : List Char} {terminator : Terminator}
    (found : cut form text = some (body, terminator, after)) :
    text = body ++ terminator.text ++ after := by
  induction text generalizing body with
  | nil => simp [cut] at found
  | cons c rest inductionHypothesis =>
      unfold cut at found
      split at found
      · rename_i here
        simp only [Option.some.injEq, Prod.mk.injEq] at found
        obtain ⟨rfl, rfl, rfl⟩ := found
        simpa using terminator?_tiles here
      · split at found
        · simp at found
        · simp only [Option.map_eq_some_iff, Prod.mk.injEq, Prod.exists] at found
          obtain ⟨innerBody, _, _, inner, rfl, rfl, rfl⟩ := found
          rw [inductionHypothesis inner]
          simp

private theorem readTag_tiles (text : List Char) :
    (readTag text).1.source ++ (readTag text).2 = '{' :: '{' :: text := by
  have opened := readOpening_tiles text
  simp only [readTag]
  split
  · rename_i body terminator after found
    rw [← opened, cut_tiles found]
    simp [tagPiece]
  · split
    · simpa using opened
    · rw [← opened]
      simp [upToTag_tiles]

theorem readTag_source_ne_nil (text : List Char) :
    (readTag text).1.source ≠ [] := by
  have opened := readOpening_text_ne_nil text
  simp only [readTag]
  split
  · simp [tagPiece, opened]
  · split <;> simp [opened]

theorem readPiece_tiles (text : List Char) :
    (readPiece text).1.source ++ (readPiece text).2 = text := by
  unfold readPiece
  split
  · exact readTag_tiles _
  · exact upToTag_tiles _

theorem readPiece_source_ne_nil {text : List Char} (nonempty : text ≠ []) :
    (readPiece text).1.source ≠ [] := by
  unfold readPiece
  split
  · exact readTag_source_ne_nil _
  · rename_i noTag
    cases text with
    | nil => exact absurd rfl nonempty
    | cons c rest =>
        have closed : opensTag (c :: rest) = false := by
          unfold opensTag
          split
          · rename_i tail same
            exact absurd same (noTag tail)
          · rfl
        simp [upToTag, closed]

private theorem length_readPiece_lt {text : List Char} (nonempty : text ≠ []) :
    (readPiece text).2.length < text.length := by
  have tiles := congrArg List.length (readPiece_tiles text)
  have positive := List.length_pos_iff.mpr (readPiece_source_ne_nil nonempty)
  rw [List.length_append] at tiles
  omega

def pieces (text : List Char) : List Piece :=
  if _ : text = [] then []
  else (readPiece text).1 :: pieces (readPiece text).2
termination_by text.length
decreasing_by
  rename_i nonempty
  exact length_readPiece_lt nonempty

@[simp] theorem pieces_nil : pieces [] = [] := by
  simp [pieces]

theorem pieces_of_ne_nil {text : List Char} (nonempty : text ≠ []) :
    pieces text = (readPiece text).1 :: pieces (readPiece text).2 := by
  rw [pieces, dif_neg nonempty]

/-- The pieces of a source, laid end to end, are the source. -/
theorem pieces_tile (text : List Char) :
    (pieces text).flatMap Piece.source = text := by
  fun_induction pieces text with
  | case1 => rfl
  | case2 text nonempty inductionHypothesis =>
      rw [List.flatMap_cons, inductionHypothesis, readPiece_tiles]

/-! ## Tokens -/

def Piece.token (piece : Piece) (place : Position) : Token :=
  ⟨piece.kind, String.ofList piece.lexeme, piece.trim, ⟨place, piece.length⟩⟩

/-- The tokens of consecutive pieces, and the token of the end after them. -/
def locate (place : Position) : List Piece → List Token
  | [] => [⟨.endOfSource, "", .unmarked, .emptyAt place⟩]
  | piece :: rest => piece.token place :: locate (place.advance piece.source) rest

/-- The tokens of a source, the last of which stands for its end. -/
def scan (source : String) : List Token :=
  locate .start (pieces source.toList)

end Stencil.Token
