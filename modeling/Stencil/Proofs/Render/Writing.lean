import Stencil.Proofs.Render.Buffer
import Stencil.Proofs.Text.Escape

/-!
Writing into a buffer. The text of a value can be written part by part, the items of an array
one after the other and an escaped text byte by byte; that comes to the same as appending the
text as a whole. So a rendering appends to what is there, and nodes in a row append one after
the other.
-/

namespace Stencil

namespace Metadata

mutual

/-- Appends the text of a value by the standard account, that of an array item by item. -/
def writeStandard : Value → String → String
  | .null => fun out => out
  | .string text => fun out => out ++ text
  | .array items => fun out => writeItems 0 items out
  | .bool b => fun out => out ++ (Value.bool b).print
  | .number n => fun out => out ++ (Value.number n).print
  | .object members => fun out => out ++ (Value.object members).print
termination_by structural value => value

def writeItems : Nat → List Value → String → String
  | _, [] => fun out => out
  | index, item :: items => fun out =>
      writeItems (index + 1) items
        (writeStandard item (if 0 < index then out ++ "," else out))
termination_by structural _ items => items

end

private theorem intercalate_cons_eq_join (separator first : String) (rest : List String) :
    separator.intercalate (first :: rest) =
      first ++ String.join (rest.map fun text => separator ++ text) := by
  induction rest generalizing first with
  | nil => simp
  | cons second rest inductionHypothesis =>
      rw [String.intercalate_cons_cons, inductionHypothesis, List.map_cons, String.join_cons,
        String.append_assoc, String.append_assoc]

mutual

private theorem writeStandard_eq (value : Value) (out : String) :
    writeStandard value out = out ++ standardDisplay value := by
  match value with
  | .null => exact String.append_empty.symm
  | .string _ | .bool _ | .number _ | .object _ => rfl
  | .array [] => exact String.append_empty.symm
  | .array (item :: items) =>
      show writeItems 1 items (writeStandard item out) = _
      rw [writeItems_succ_eq, writeStandard_eq item, String.append_assoc, standardDisplay,
        standardDisplayItems, intercalate_cons_eq_join]
termination_by structural value

private theorem writeItems_succ_eq (index : Nat) (items : List Value) (out : String) :
    writeItems (index + 1) items out =
      out ++ String.join ((standardDisplayItems items).map fun text => "," ++ text) := by
  match items with
  | [] => exact String.append_empty.symm
  | item :: rest =>
      rw [writeItems]
      dsimp only
      rw [if_pos (Nat.zero_lt_succ index), writeItems_succ_eq, writeStandard_eq item,
        standardDisplayItems, List.map_cons, String.join_cons]
      simp only [String.append_assoc]
termination_by structural items

end

end Metadata

namespace Style

/-- Appends the text of a value by the standard account, part by part; a text that is escaped
goes through a buffer of its own. -/
def writeValue (style : Style) (path : Path) (escaped : Bool) (context : Context)
    (out : String) : Option String :=
  match context.lookup .standard path with
  | none => some out
  | some value =>
      if escaped && style.options.escapeHtml then
        Text.escapeBytes out (Metadata.writeStandard value "")
      else
        some (Metadata.writeStandard value out)

private theorem writeValue_eq
    (style : Style) (path : Path) (escaped : Bool) (context : Context) (out : String) :
    style.writeValue path escaped context out =
      some (style.appendValue .standard path escaped context out) := by
  unfold writeValue appendValue
  cases context.lookup .standard path with
  | none => rfl
  | some value =>
      dsimp only
      rw [Text.escapeBytes_eq, Metadata.writeStandard_eq, Metadata.writeStandard_eq,
        String.empty_append]
      split <;> rfl

/-- Rendering nodes behind a buffer appends what rendering them alone gives, and fails where
that fails. Nodes in a row give their texts in a row, up to the first error. The text of each
value may as well be written part by part. -/
theorem renderNodes_appends
    (options : RenderOptions) (callPartial : String → Context → Outcome)
    (first second : List Node) (context : Context) (out : String) :
    let style : Style := ⟨options, .builtin⟩
    let host : Host := ⟨.standard, callPartial⟩
    style.renderNodes host first context out =
        (style.renderNodes host first context "").map (fun text => out ++ text) ∧
      style.renderNodes host (first ++ second) context out =
        (style.renderNodes host first context "").bind (fun text =>
          (style.renderNodes host second context "").map fun later => out ++ (text ++ later)) ∧
      ∀ path escaped,
        style.writeValue path escaped context out =
          some (style.appendValue host.metadata path escaped context out) := by
  intro style host
  have standard : style.helpers = .builtin := rfl
  have alone (nodes : List Node) (buffer : String) :
      style.renderNodes host nodes context buffer =
        (style.renderNodes host nodes context "").map fun text => buffer ++ text :=
    style.renderNodes_eq_map host standard nodes context buffer
  refine ⟨alone first out, ?_, fun path escaped => style.writeValue_eq path escaped context out⟩
  rw [renderNodes_append, alone first out]
  cases style.renderNodes host first context "" with
  | error error => rfl
  | ok text =>
      show style.renderNodes host second context (out ++ text) = _
      rw [alone second]
      simp only [String.append_assoc]
      rfl

end Style

end Stencil
