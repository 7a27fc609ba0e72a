/-!
HTML escaping. Seven characters that mean something in HTML text or attributes are written as
entities; every other character stands for itself.
-/

namespace Stencil.Text

/-- The text that stands for a character in HTML. -/
def entity (c : Char) : String :=
  match c with
  | '&' => "&amp;"
  | '<' => "&lt;"
  | '>' => "&gt;"
  | '"' => "&quot;"
  | '\'' => "&#x27;"
  | '\x60' => "&#x60;"
  | '=' => "&#x3D;"
  | _ => c.toString

def escapeInto (out : String) (text : String) : String :=
  text.toList.foldl (fun out c => out ++ entity c) out

def escape (text : String) : String :=
  escapeInto "" text

theorem escapeInto_append (out first second : String) :
    escapeInto out (first ++ second) = escapeInto (escapeInto out first) second := by
  simp [escapeInto, List.foldl_append]

theorem escapeInto_eq_append (out text : String) :
    escapeInto out text = out ++ escape text := by
  have general : ∀ (characters : List Char) (start : String),
      characters.foldl (fun out c => out ++ entity c) start =
        start ++ characters.foldl (fun out c => out ++ entity c) "" := by
    intro characters
    induction characters with
    | nil => simp
    | cons c rest inductionHypothesis =>
        intro start
        rw [List.foldl_cons, List.foldl_cons, inductionHypothesis,
          inductionHypothesis ("" ++ entity c)]
        simp [String.append_assoc]
  exact general text.toList out

end Stencil.Text
