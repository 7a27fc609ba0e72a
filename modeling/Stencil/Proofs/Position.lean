import Mathlib.Algebra.Group.Nat.Defs
import Mathlib.Data.List.DropRight
import Mathlib.Data.List.Induction
import Stencil.Position

/-!
Positions in sources below four gigabytes. There lines and columns count without wrapping
around, lines by line feeds and columns by bytes, and what comes later in a source comes later
in reading order.
-/

namespace Stencil.Position

def Before (first second : Position) : Prop :=
  first.line < second.line ∨ first.line = second.line ∧ first.col < second.col

theorem Before.trans
    {first second third : Position} (lower : first.Before second)
    (upper : second.Before third) :
    first.Before third := by
  unfold Before at *
  simp only [UInt32.lt_iff_toNat_lt, ← UInt32.toNat_inj] at *
  omega

theorem Before.not_le
    {first second : Position} (before : first.Before second) :
    ¬ second.le first = true := by
  rw [le_iff]
  unfold Before at before
  simp only [UInt32.lt_iff_toNat_lt, UInt32.le_iff_toNat_le, ← UInt32.toNat_inj] at *
  omega

theorem le_refl (position : Position) :
    position.le position = true := by
  have total := le_total position position
  rwa [Bool.or_self] at total

theorem le_antisymm
    {first second : Position} (lower : first.le second = true)
    (upper : second.le first = true) :
    first = second := by
  rw [le_iff] at lower upper
  obtain ⟨line, col⟩ := first
  obtain ⟨otherLine, otherCol⟩ := second
  simp only [UInt32.lt_iff_toNat_lt, UInt32.le_iff_toNat_le, ← UInt32.toNat_inj, mk.injEq] at *
  omega

theorem Before.le
    {first second : Position} (before : first.Before second) :
    first.le second = true := by
  have total := le_total first second
  rw [Bool.or_eq_true] at total
  exact total.resolve_right before.not_le

theorem Before.ne
    {first second : Position} (before : first.Before second) :
    first ≠ second := by
  intro same
  exact before.not_le (same ▸ le_refl first)

/-- Neither the line nor the column is more than so many bytes from the start. -/
structure Within (bytes : Nat) (position : Position) : Prop where
  positive : 0 < position.line.toNat
  line : position.line.toNat ≤ bytes + 1
  col : position.col.toNat ≤ bytes + 1

private theorem within_start : Within 0 start :=
  ⟨Nat.one_pos, Nat.le_refl 1, Nat.le_refl 1⟩

private theorem toNat_add_ofNat
    {count : UInt32} {more : Nat} (room : count.toNat + more < 2 ^ 32) :
    (count + UInt32.ofNat more).toNat = count.toNat + more := by
  have small : more < 2 ^ 32 := by omega
  rw [UInt32.toNat_add, UInt32.toNat_ofNat', Nat.mod_eq_of_lt small, Nat.mod_eq_of_lt room]

theorem Within.step
    {bytes : Nat} {position : Position} (within : Within bytes position) (c : Char)
    (room : bytes + c.utf8Size + 1 < 2 ^ 32) :
    Within (bytes + c.utf8Size) (position.step c) ∧ position.Before (position.step c) := by
  obtain ⟨first, line, col⟩ := within
  have positive := c.utf8Size_pos
  unfold Position.step
  split
  · have next : (position.line + UInt32.ofNat 1).toNat = position.line.toNat + 1 :=
      toNat_add_ofNat (by omega)
    have one : (1 : UInt32).toNat = 1 := rfl
    refine ⟨⟨?_, ?_, ?_⟩, .inl ?_⟩
    · show 0 < (position.line + UInt32.ofNat 1).toNat
      omega
    · show (position.line + UInt32.ofNat 1).toNat ≤ _
      omega
    · show (1 : UInt32).toNat ≤ _
      omega
    · rw [UInt32.lt_iff_toNat_lt]
      show _ < (position.line + UInt32.ofNat 1).toNat
      omega
  · have next : (position.col + UInt32.ofNat c.utf8Size).toNat =
        position.col.toNat + c.utf8Size := toNat_add_ofNat (by omega)
    refine ⟨⟨first, ?_, ?_⟩, .inr ⟨rfl, ?_⟩⟩
    · show position.line.toNat ≤ _
      omega
    · show (position.col + UInt32.ofNat c.utf8Size).toNat ≤ _
      omega
    · rw [UInt32.lt_iff_toNat_lt]
      show _ < (position.col + UInt32.ofNat c.utf8Size).toNat
      omega

private theorem within_advance
    {text : List Char} (short : byteLength text + 1 < 2 ^ 32) :
    Within (byteLength text) (start.advance text) := by
  induction text using List.reverseRecOn with
  | nil => exact within_start
  | append_singleton text c inductionHypothesis =>
      rw [byteLength_append, byteLength_cons, byteLength_nil, Nat.add_zero] at short ⊢
      have within := inductionHypothesis (by omega)
      rw [advance_append]
      exact (within.step c short).1

theorem before_advance
    {before text : List Char} (nonempty : text ≠ [])
    (short : byteLength (before ++ text) + 1 < 2 ^ 32) :
    (start.advance before).Before (start.advance (before ++ text)) := by
  induction text using List.reverseRecOn with
  | nil => exact absurd rfl nonempty
  | append_singleton text c inductionHypothesis =>
      rw [← List.append_assoc, byteLength_append, byteLength_cons, byteLength_nil,
        Nat.add_zero] at short
      have within : Within (byteLength (before ++ text)) (start.advance (before ++ text)) :=
        within_advance (by omega)
      have last := (within.step c short).2
      rw [← List.append_assoc, advance_append]
      by_cases empty : text = []
      · rw [empty, List.append_nil] at last ⊢
        exact last
      · exact (inductionHypothesis empty (by omega)).trans last

def lineAfter (text : List Char) : Nat :=
  1 + text.count '\n'

def columnAfter (text : List Char) : Nat :=
  1 + byteLength (text.rtakeWhile fun c => c != '\n')

theorem toNat_advance
    {text : List Char} (short : byteLength text + 1 < 2 ^ 32) :
    (start.advance text).line.toNat = lineAfter text ∧
      (start.advance text).col.toNat = columnAfter text := by
  induction text using List.reverseRecOn with
  | nil => exact ⟨rfl, rfl⟩
  | append_singleton text c inductionHypothesis =>
      rw [byteLength_append, byteLength_cons, byteLength_nil, Nat.add_zero] at short
      obtain ⟨line, col⟩ := inductionHypothesis (by omega)
      have within : Within (byteLength text) (start.advance text) :=
        within_advance (by omega)
      have lineBound := within.line
      have colBound := within.col
      have positive := c.utf8Size_pos
      rw [advance_append, advance_cons, advance_nil, lineAfter, columnAfter,
        List.count_append, List.rtakeWhile_concat]
      by_cases feed : c = '\n'
      · subst feed
        rw [step, if_pos rfl]
        constructor
        · show ((start.advance text).line + UInt32.ofNat 1).toNat = _
          rw [toNat_add_ofNat (by omega), line, lineAfter, List.count_singleton_self]
          omega
        · rfl
      · rw [step, if_neg feed]
        constructor
        · simp [line, lineAfter, feed]
        · show ((start.advance text).col + UInt32.ofNat c.utf8Size).toNat = _
          rw [toNat_add_ofNat (by omega), col, columnAfter, if_pos (by simpa using feed),
            byteLength_append, byteLength_cons, byteLength_nil]
          omega

/-- A position of a text, moved to where the text starts in a source: its lines go on from there,
and so do the columns of its first line. -/
def move (origin position : Position) : Position where
  line := position.line + origin.line - 1
  col := if position.line = 1 then position.col + origin.col - 1 else position.col

private theorem move_start (origin : Position) : move origin start = origin := by
  obtain ⟨line, col⟩ := origin
  simp only [move, start, if_true, mk.injEq]
  constructor <;> grind

private theorem step_move
    (origin : Position) {position : Position} (positive : position.line ≠ 0) (c : Char) :
    (move origin position).step c = move origin (position.step c) := by
  unfold step
  split
  · have later : position.line + 1 ≠ 1 := by
      intro same
      exact positive (by grind)
    simp only [move, if_neg later, mk.injEq, and_true]
    grind
  · simp only [move, mk.injEq, true_and]
    split
    · grind
    · rfl

/-- What comes later in a source is where it would be alone, moved to where it starts. -/
theorem advance_append_eq_move
    (before : List Char) {text : List Char} (short : byteLength text + 1 < 2 ^ 32) :
    start.advance (before ++ text) = move (start.advance before) (start.advance text) := by
  induction text using List.reverseRecOn with
  | nil => rw [List.append_nil, advance_nil, move_start]
  | append_singleton text c inductionHypothesis =>
      rw [byteLength_append, byteLength_cons, byteLength_nil, Nat.add_zero] at short
      have within : Within (byteLength text) (start.advance text) :=
        within_advance (by omega)
      have positive : (start.advance text).line ≠ 0 := by
        intro zero
        have first := within.positive
        rw [zero] at first
        exact absurd first (by decide)
      rw [← List.append_assoc, advance_append, inductionHypothesis (by omega), advance_append]
      exact step_move _ positive c

end Stencil.Position
