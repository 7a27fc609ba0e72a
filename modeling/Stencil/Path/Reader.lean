import Stencil.Path.Basic
import Stencil.Text.Blank

/-!
Reading a path from its text. Levels to climb come first, then the current value by one of its
two names, or an optional mention of it before a data variable or a first member. Members are
separated by points or slashes.
-/

namespace Stencil.Path

def isSeparator (c : Char) : Bool :=
  c == '.' || c == '/'

/-- Whether a character may stand in a segment: ASCII letters and digits, three signs, and
everything beyond ASCII. -/
def isSegmentChar (c : Char) : Bool :=
  c.isAlphanum || c == '_' || c == '-' || c == '$' || 0x80 ≤ c.toNat

theorem not_isSegmentChar_of_isSeparator {c : Char} (separator : isSeparator c = true) :
    isSegmentChar c = false := by
  simp only [isSeparator, Bool.or_eq_true, beq_iff_eq] at separator
  rcases separator with rfl | rfl <;> decide

/-- Why a text is not a path. -/
inductive Flaw where
  | dataName
  | emptySegment
  | lateClimb
  | strayCharacter
deriving DecidableEq, Repr

def Flaw.message : Flaw → String
  | .dataName => "data variables are written '@name'"
  | .emptySegment => "empty segment"
  | .lateClimb => "'../' is only allowed at the start"
  | .strayCharacter => "unexpected character"

/-- The climbed levels at the start of a text, and what follows them. -/
def climb : List Char → Nat × List Char
  | '.' :: '.' :: '/' :: rest =>
      let (levels, rest) := climb rest
      (levels + 1, rest)
  | text => (0, text)

/-- Drops a mention of the current value that more of the path follows. -/
def dropCurrent : List Char → List Char
  | 't' :: 'h' :: 'i' :: 's' :: '.' :: rest => rest
  | 't' :: 'h' :: 'i' :: 's' :: '/' :: rest => rest
  | '.' :: '/' :: rest => rest
  | text => text

def readSegment (text : List Char) : Except Flaw String :=
  if text.isEmpty then .error .emptySegment
  else if text = ['.', '.'] then .error .lateClimb
  else if text.all isSegmentChar then .ok (String.ofList text)
  else .error .strayCharacter

def readSegments (text : List Char) : Except Flaw (List String) :=
  (Text.fields isSeparator text).mapM readSegment

/-- Reads what follows the climbed levels and the mention of the current value. -/
def readStart : List Char → Except Flaw (Root × List String)
  | '@' :: rest =>
      let name := rest.takeWhile fun c => !isSeparator c
      if name.isEmpty || !name.all isSegmentChar then
        .error .dataName
      else
        match rest.dropWhile fun c => !isSeparator c with
        | [] => .ok (.data (String.ofList name), [])
        | _ :: rest => (readSegments rest).map fun segments => (.data (String.ofList name), segments)
  | text => (readSegments text).map fun segments => (.context, segments)

def readBelow (levels : Nat) (text : List Char) : Except Flaw Path :=
  if text = ['.', '.'] then
    .ok ⟨levels + 1, .context, []⟩
  else if text = ['t', 'h', 'i', 's'] ∨ text = ['.'] then
    .ok ⟨levels, .context, []⟩
  else
    (readStart (dropCurrent text)).map fun (root, segments) => ⟨levels, root, segments⟩

def readChars (text : List Char) : Except Flaw Path :=
  let (levels, rest) := climb text
  readBelow levels rest

def read (text : String) : Except Flaw Path :=
  readChars text.toList

end Stencil.Path
