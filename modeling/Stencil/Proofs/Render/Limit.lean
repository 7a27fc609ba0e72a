import Mathlib.Control.Monad.Basic
import Stencil.Proofs.Render.Calls

/-!
The limit on the nesting of partials. It ends a rendering or has no part in it: a rendering that
does not meet its limit comes out the same under every higher one.
-/

namespace Stencil

/-- Whether a rendering has met the limit on the nesting of partials. -/
def ExceedsLimit (outcome : Outcome) : Prop :=
  ∃ name limit, outcome = .error (.partialDepthExceeded name limit)

def TemplateError.OfLimit (error : TemplateError) : Prop :=
  ExceedsLimit (.error error)

theorem Agree.eq_of_not_exceedsLimit
    {first second : Outcome} (agree : Agree TemplateError.OfLimit first second)
    (within : ¬ ExceedsLimit first) : second = first := by
  apply agree.eq_of_not_excused
  intro error ofLimit failed
  rw [failed] at within
  exact within ofLimit

namespace Style

def withLimit (style : Style) (limit : Nat) : Style :=
  { style with options := { style.options with maxPartialDepth := limit } }

private theorem alike_withLimit
    {style : Style} (standard : style.helpers = .builtin) (limit higher : Nat) :
    (style.withLimit limit).Alike (style.withLimit higher) :=
  ⟨standard, standard, rfl⟩

/-- There is room for what a rendering nests where the limit is as far from its depth. -/
theorem room_of_le
    {style other : Style} {depth otherDepth : Nat}
    (enough : style.options.maxPartialDepth + otherDepth ≤
      other.options.maxPartialDepth + depth) :
    Room TemplateError.OfLimit style other depth otherDepth :=
  ⟨enough, .inl fun name => ⟨name, _, rfl⟩⟩

end Style

namespace Partials

/-- Under a higher limit a rendering comes out the same, unless it has met the lower one. -/
theorem render_withLimit_of_le
    (style : Style) (standard : style.helpers = .builtin) (metadata : Metadata)
    {table : Registry PartialBody} (documents : Documents table) (document : Document)
    (context : Context) {limit higher : Nat} (le : limit ≤ higher)
    (within :
      ¬ ExceedsLimit (render (style.withLimit limit) metadata table document context)) :
    render (style.withLimit higher) metadata table document context =
      render (style.withLimit limit) metadata table document context := by
  have alike := Style.alike_withLimit standard limit higher
  have room : Style.Room TemplateError.OfLimit (style.withLimit limit)
      (style.withLimit higher) context.depth context.depth := by
    apply Style.room_of_le
    exact Nat.add_le_add_right le context.depth
  have agree := agree_render alike metadata documents (.refl _ table) document room
  exact agree.eq_of_not_exceedsLimit within

/-- A partial that calls itself once for each level of a tree, two levels here. -/
theorem render_withLimit_of_le_tree :
    let call : Node := .partialTag "tree" none default default
    let tags : BlockTags := ⟨"each", ⟨0, .context, ["below"]⟩, default, default, default, default⟩
    let tree : Document :=
      ⟨[.text "(" default, .block tags [call] none, .text ")" default]⟩
    let table := (Registry.empty.insertIfNew "tree" (PartialBody.document tree)).2.2
    let model : Value := .object [("below", .array [.object [], .object []])]
    ¬ ExceedsLimit
        (render (Style.standard.withLimit 2) .standard table ⟨[call]⟩ (.ofModel model)) ∧
      render (Style.standard.withLimit 5) .standard table ⟨[call]⟩ (.ofModel model) =
        .ok "(()())" := by
  intro call tags tree table model
  have shallow : render (Style.standard.withLimit 2) .standard table ⟨[call]⟩ (.ofModel model) =
      .ok "(()())" := by
    decide +kernel
  have within : ¬ ExceedsLimit
      (render (Style.standard.withLimit 2) .standard table ⟨[call]⟩ (.ofModel model)) := by
    rw [shallow]
    exact nofun
  have documents : Documents table := documents_empty.insertIfNew "tree" tree
  have same := render_withLimit_of_le .standard rfl .standard documents ⟨[call]⟩ (.ofModel model)
    (by decide : 2 ≤ 5) within
  exact ⟨within, same.trans shallow⟩

end Partials

end Stencil
