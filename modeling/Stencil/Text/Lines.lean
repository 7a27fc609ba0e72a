import Stencil.Text.Blank

/-!
The lines of a text. A line ends with a line feed, or with a carriage return and a line feed;
the end of the text also ends a line that has begun.
-/

namespace Stencil.Text

/-- A line that a line feed ended, without a carriage return right before that line feed. -/
def dropReturn (line : List Char) : List Char :=
  if line.getLast? = some '\r' then line.dropLast else line

/-- The lines of a text, without their ends. A last line that no line feed ends keeps a carriage
return, and counts only when it holds a character. -/
def lines (text : List Char) : List (List Char) :=
  let pieces := fields (· == '\n') text
  let last := pieces.getLast?.getD []
  pieces.dropLast.map dropReturn ++ (if last.isEmpty then [] else [last])

example : lines "a\r\nb\n\nc\r".toList = ["a".toList, "b".toList, [], "c\r".toList] := by
  decide +kernel

example : lines "a\n".toList = ["a".toList] := by decide +kernel

end Stencil.Text
