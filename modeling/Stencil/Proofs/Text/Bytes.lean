import Mathlib.Data.String.Basic
import Stencil.Position

/-!
The bytes of a text in UTF-8, and its parts between two offsets in bytes. An offset cuts a text
where it lies between two characters.
-/

namespace Stencil

theorem length_le_byteLength (text : List Char) :
    text.length ≤ byteLength text := by
  induction text with
  | nil => exact Nat.le_refl 0
  | cons c rest inductionHypothesis =>
      have positive := c.utf8Size_pos
      rw [List.length_cons, byteLength_cons]
      omega

theorem byteLength_eq_utf8Len (text : List Char) :
    byteLength text = String.utf8Len text := by
  induction text with
  | nil => rfl
  | cons c rest inductionHypothesis =>
      rw [byteLength_cons, String.utf8Len_cons, inductionHypothesis, Nat.add_comm]

theorem isValid_byteLength
    {source : String} {before after : List Char} (split : source.toList = before ++ after) :
    (⟨byteLength before⟩ : String.Pos.Raw).IsValid source := by
  rw [String.Pos.Raw.isValid_iff_exists_append]
  refine ⟨String.ofList before, String.ofList after, ?_, ?_⟩
  · rw [← String.ofList_append, ← split, String.ofList_toList]
  · rw [String.rawEndPos_ofList, byteLength_eq_utf8Len]

namespace Text

def IsAscii (text : List Char) : Prop :=
  ∀ c ∈ text, c.utf8Size = 1

theorem byteLength_eq_length_iff (text : List Char) :
    byteLength text = text.length ↔ IsAscii text := by
  induction text with
  | nil => exact iff_of_true rfl fun _ member => absurd member List.not_mem_nil
  | cons c rest inductionHypothesis =>
      have positive := c.utf8Size_pos
      have atLeast := length_le_byteLength rest
      rw [IsAscii, List.forall_mem_cons, ← IsAscii, ← inductionHypothesis, byteLength_cons,
        List.length_cons]
      omega

theorem toUInt8_inj
    {first second : Char} (short : first.utf8Size = 1) (alsoShort : second.utf8Size = 1)
    (same : first.toUInt8 = second.toUInt8) : first = second := by
  rw [Char.utf8Size_eq_one_iff, UInt32.le_iff_toNat_le] at short alsoShort
  have bytes := congrArg UInt8.toNat same
  rw [Char.toUInt8, Char.toUInt8, UInt32.toNat_toUInt8, UInt32.toNat_toUInt8] at bytes
  have bound : (127 : UInt32).toNat = 127 := rfl
  rw [bound] at short alsoShort
  apply Char.ext
  rw [← UInt32.toNat_inj]
  omega

/-- The bytes of a character that takes several are none of those of other characters. -/
theorem le_of_mem_utf8EncodeChar
    {c : Char} (long : c.utf8Size ≠ 1) {byte : UInt8} (member : byte ∈ String.utf8EncodeChar c) :
    128 ≤ byte.toNat := by
  rw [ne_eq, Char.utf8Size_eq_one_iff, UInt32.le_iff_toNat_le] at long
  have bound : (127 : UInt32).toNat = 127 := rfl
  rw [bound] at long
  unfold String.utf8EncodeChar at member
  dsimp only at member
  rw [if_neg long] at member
  -- Two, three or four bytes: the first counts from 192 or more, each other one from 128.
  split_ifs at member <;> simp only [List.mem_cons, List.not_mem_nil, or_false] at member
  · rcases member with rfl | rfl <;> rw [UInt8.toNat_ofNat'] <;> omega
  · rcases member with rfl | rfl | rfl <;> rw [UInt8.toNat_ofNat'] <;> omega
  · rcases member with rfl | rfl | rfl | rfl <;> rw [UInt8.toNat_ofNat'] <;> omega

def bytes (text : String) : List UInt8 :=
  text.toByteArray.data.toList

theorem bytes_ofList (text : List Char) :
    bytes (String.ofList text) = text.flatMap String.utf8EncodeChar := by
  rw [bytes, String.toByteArray_ofList, List.utf8Encode, List.toList_data_toByteArray]

/-- The part of a text between two offsets; there is none unless both lie between characters,
the first of them no later than the second. -/
def slice? (text : String) (start stop : Nat) : Option String :=
  if String.Pos.Raw.IsValid text ⟨start⟩ ∧ String.Pos.Raw.IsValid text ⟨stop⟩ ∧ start ≤ stop then
    some (String.Pos.Raw.extract text ⟨start⟩ ⟨stop⟩)
  else
    none

theorem slice?_of_split
    {text : String} {before part after : List Char}
    (split : text.toList = before ++ part ++ after) :
    slice? text (byteLength before) (byteLength before + byteLength part) =
      some (String.ofList part) := by
  have start := isValid_byteLength (split.trans (List.append_assoc before part after))
  have stop := isValid_byteLength split
  rw [byteLength_append] at stop
  rw [slice?, if_pos ⟨start, stop, Nat.le_add_right _ _⟩, ← text.ofList_toList, split,
    byteLength_eq_utf8Len, byteLength_eq_utf8Len, String.extract_of_valid]

end Text

end Stencil
