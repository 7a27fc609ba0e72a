/-!
Places in a template source. Lines and columns count from one; a column counts the bytes of
the source in UTF-8, so that it can be found again in a file. All these counts are words of
thirty-two bits: they are exact in sources below four gigabytes, and wrap around beyond.
-/

namespace Stencil

/-- A line and a byte column. -/
structure Position where
  line : UInt32
  col : UInt32
deriving DecidableEq, Repr, Inhabited

namespace Position

def start : Position := ⟨1, 1⟩

def step (position : Position) (c : Char) : Position :=
  if c = '\n' then ⟨position.line + 1, 1⟩
  else ⟨position.line, position.col + UInt32.ofNat c.utf8Size⟩

def advance (position : Position) (text : List Char) : Position :=
  text.foldl step position

def le (first second : Position) : Bool :=
  first.line < second.line || (first.line = second.line && first.col ≤ second.col)

@[simp] theorem advance_nil (position : Position) : position.advance [] = position := rfl

@[simp] theorem advance_cons (position : Position) (c : Char) (rest : List Char) :
    position.advance (c :: rest) = (position.step c).advance rest := rfl

theorem advance_append (position : Position) (first second : List Char) :
    position.advance (first ++ second) = (position.advance first).advance second := by
  simp [advance, List.foldl_append]

theorem le_iff (first second : Position) :
    first.le second = true ↔
      first.line < second.line ∨ (first.line = second.line ∧ first.col ≤ second.col) := by
  simp [le]

theorem le_trans {first second third : Position}
    (lower : first.le second = true) (upper : second.le third = true) :
    first.le third = true := by
  rw [le_iff] at *
  simp only [UInt32.lt_iff_toNat_lt, UInt32.le_iff_toNat_le, ← UInt32.toNat_inj] at *
  omega

theorem le_total (first second : Position) :
    (first.le second || second.le first) = true := by
  rw [Bool.or_eq_true, le_iff, le_iff]
  simp only [UInt32.lt_iff_toNat_lt, UInt32.le_iff_toNat_le, ← UInt32.toNat_inj]
  omega

end Position

def byteLength : List Char → Nat
  | [] => 0
  | c :: rest => c.utf8Size + byteLength rest

@[simp] theorem byteLength_nil : byteLength [] = 0 := rfl

@[simp] theorem byteLength_cons (c : Char) (rest : List Char) :
    byteLength (c :: rest) = c.utf8Size + byteLength rest := rfl

@[simp] theorem byteLength_append (first second : List Char) :
    byteLength (first ++ second) = byteLength first + byteLength second := by
  induction first with
  | nil => simp
  | cons c rest inductionHypothesis =>
      simp [inductionHypothesis, Nat.add_assoc]

/-- Where a piece of source starts, and how many bytes it covers. -/
structure Span where
  start : Position
  len : UInt32
deriving DecidableEq, Repr, Inhabited

namespace Span

def emptyAt (position : Position) : Span := ⟨position, 0⟩

def isEmpty (span : Span) : Bool := span.len = 0

/-- The column after the span, as long as it stays on one line. -/
def endCol (span : Span) : UInt32 := span.start.col + span.len

def display (span : Span) : String :=
  toString span.start.line.toNat ++ ":" ++ toString span.start.col.toNat

def describe (span : Span) : String :=
  span.display ++ "+" ++ toString span.len.toNat

/-- A marker as wide as the span: a caret, then tildes. -/
def underline (span : Span) : String :=
  String.ofList ('^' :: List.replicate (span.len.toNat - 1) '~')

end Span

end Stencil
