import Stencil.Partials
import Stencil.Proofs.Render.Agreement

/-!
Calls of the same partials in two renderings. Where all partials are documents, the two agree if
their tables and the room that they leave for nesting differ by excused errors only.
-/

namespace Stencil.Partials

variable {style other : Style} {table later : Registry PartialBody}
  {excused : TemplateError → Prop}

theorem documents_empty : Documents .empty := by
  intro name body found
  rw [Registry.get?_empty] at found
  exact nomatch found

theorem Documents.insertIfNew
    (documents : Documents table) (name : String) (document : Document) :
    Documents (table.insertIfNew name (.document document)).2.2 := by
  intro other body found
  rw [Registry.get?_insertIfNew] at found
  split at found
  · cases taken : table.get? other with
    | none =>
        rw [taken] at found
        exact ⟨document, (Option.some.inj found).symm⟩
    | some stored =>
        rw [taken] at found
        rw [← Option.some.inj found]
        exact documents other stored taken
  · exact documents other body found

/-- Whether a second table has the partials of a first one, and others only where their lack is
excused. -/
def Supplies (excused : TemplateError → Prop) (table later : Registry PartialBody) : Prop :=
  ∀ name, later.get? name = table.get? name ∨
    table.get? name = none ∧ excused (.unknownPartial name)

theorem Supplies.refl (excused : TemplateError → Prop) (table : Registry PartialBody) :
    Supplies excused table table :=
  fun _ => .inl rfl

/-- The bounds on nested calls may differ, since the limit is met before either of them. -/
theorem agree_call
    (alike : style.Alike other) (metadata : Metadata) (documents : Documents table)
    (supplies : Supplies excused table later) {nesting otherNesting : Nat} (name : String)
    {context : Context} {otherDepth : Nat}
    (room : Style.Room excused style other context.depth otherDepth)
    (level : context.depth ≤ style.options.maxPartialDepth)
    (bound : style.options.maxPartialDepth < nesting + context.depth)
    (otherBound : other.options.maxPartialDepth < otherNesting + otherDepth) :
    Agree excused (call style.render metadata table nesting name context)
      (call other.render metadata later otherNesting name (context.atDepth otherDepth)) := by
  induction nesting generalizing otherNesting name context otherDepth with
  | zero => omega
  | succ nesting inductionHypothesis =>
      have enough := room.enough
      obtain ⟨otherNesting, rfl⟩ : ∃ fewer, otherNesting = fewer + 1 :=
        ⟨otherNesting - 1, by omega⟩
      rcases supplies name with same | ⟨free, excuse⟩
      · cases found : table.get? name with
        | none =>
            rw [call_of_free _ _ _ _ found, call_of_free _ _ _ _ (same.trans found)]
            exact .of_eq rfl
        | some body =>
            obtain ⟨document, rfl⟩ := documents name body found
            rw [call_succ _ _ _ _ found, call_succ _ _ _ _ (same.trans found)]
            apply Style.agree_renderNodes_of_calls alike _ room _ document.nodes ""
            · rfl
            · intro name inner deeper within
              apply inductionHypothesis name _ within
              · omega
              · omega
              · rw [deeper]
                exact room.deeper
      · -- Here the two may part: the second table may have what the first one lacks.
        rw [call_of_free _ _ _ _ free]
        exact .of_excused excuse _

theorem agree_renderNodes
    (alike : style.Alike other) (metadata : Metadata) (documents : Documents table)
    (supplies : Supplies excused table later) {nesting otherNesting : Nat} (nodes : List Node)
    {context : Context} {otherDepth : Nat}
    (room : Style.Room excused style other context.depth otherDepth)
    (bound : style.options.maxPartialDepth ≤ nesting + context.depth)
    (otherBound : other.options.maxPartialDepth ≤ otherNesting + otherDepth) (out : String) :
    Agree excused
      (style.renderNodes ⟨metadata, call style.render metadata table nesting⟩ nodes context out)
      (other.renderNodes ⟨metadata, call other.render metadata later otherNesting⟩ nodes
        (context.atDepth otherDepth) out) := by
  apply Style.agree_renderNodes_of_calls alike _ room _ nodes out
  · rfl
  · intro name inner deeper within
    apply agree_call alike metadata documents supplies name _ within
    · omega
    · omega
    · rw [deeper]
      exact room.deeper

def render (style : Style) (metadata : Metadata) (table : Registry PartialBody)
    (document : Document) (context : Context) : Outcome :=
  style.render (host style.render metadata table style.options.maxPartialDepth) document context

theorem limit_le_nestingBound (table : Registry PartialBody) (limit depth : Nat) :
    limit ≤ nestingBound table limit + depth := by
  unfold nestingBound
  omega

theorem agree_render
    (alike : style.Alike other) (metadata : Metadata) (documents : Documents table)
    (supplies : Supplies excused table later) (document : Document) {context : Context}
    {otherDepth : Nat} (room : Style.Room excused style other context.depth otherDepth) :
    Agree excused (render style metadata table document context)
      (render other metadata later document (context.atDepth otherDepth)) := by
  apply agree_renderNodes alike metadata documents supplies document.nodes room
  · exact limit_le_nestingBound table _ _
  · exact limit_le_nestingBound later _ _

end Stencil.Partials
