import Stencil.Proofs.Render.Passages

/-!
Renderings of the same nodes that differ in their partials and in how deep these may nest. Where
the partials agree up to some errors of the first rendering, so do the renderings: both meet the
same things in the same order, and the first error ends both.
-/

namespace Stencil

/-- Whether two outcomes agree, or the first one is an excused error. -/
def Agree (excused : TemplateError → Prop) (first second : Outcome) : Prop :=
  first = second ∨ ∃ error, first = .error error ∧ excused error

namespace Agree

variable {excused : TemplateError → Prop} {first second : Outcome}

theorem of_eq (same : first = second) : Agree excused first second :=
  .inl same

theorem of_excused {error : TemplateError} (excuse : excused error) (other : Outcome) :
    Agree excused (.error error) other :=
  .inr ⟨error, rfl, excuse⟩

theorem eq_of_not_excused
    (agree : Agree excused first second)
    (plain : ∀ error, excused error → first ≠ .error error) : second = first := by
  rcases agree with same | ⟨error, failed, excuse⟩
  · exact same.symm
  · exact absurd failed (plain error excuse)

theorem bind
    (agree : Agree excused first second) {next other : String → Outcome}
    (later : ∀ text, Agree excused (next text) (other text)) :
    Agree excused (first.bind next) (second.bind other) := by
  rcases agree with rfl | ⟨error, rfl, excuse⟩
  · cases first with
    | error error => exact of_eq rfl
    | ok text => exact later text
  · exact of_excused excuse _

theorem map (agree : Agree excused first second) (change : String → String) :
    Agree excused (first.map change) (second.map change) := by
  rcases agree with rfl | ⟨error, rfl, excuse⟩
  · exact of_eq rfl
  · exact of_excused excuse _

theorem foldlM
    {α : Type} {items : List α} {take other : String → α → Outcome}
    (each : ∀ item ∈ items, ∀ out, Agree excused (take out item) (other out item))
    (out : String) :
    Agree excused (items.foldlM take out) (items.foldlM other out) := by
  induction items generalizing out with
  | nil => exact of_eq rfl
  | cons item rest inductionHypothesis =>
      rw [List.foldlM_cons, List.foldlM_cons]
      refine bind (each item List.mem_cons_self out) fun text => ?_
      exact inductionHypothesis
        (fun other member => each other (List.mem_cons_of_mem item member)) text

end Agree

namespace Style

/-- Whether two styles with the standard helpers differ in the nesting of partials only. -/
structure Alike (style other : Style) : Prop where
  standard : style.helpers = .builtin
  otherStandard : other.helpers = .builtin
  escapes : style.options.escapeHtml = other.options.escapeHtml

variable {style other : Style} {host otherHost : Host} {excused : TemplateError → Prop}
  {depth otherDepth : Nat}

theorem Alike.refl (standard : style.helpers = .builtin) : style.Alike style :=
  ⟨standard, standard, rfl⟩

theorem Alike.appendValue
    (alike : style.Alike other) (metadata : Metadata) (path : Path) (escaped : Bool)
    (context : Context) (depth : Nat) (out : String) :
    style.appendValue metadata path escaped context out =
      other.appendValue metadata path escaped (context.atDepth depth) out := by
  unfold Style.appendValue
  rw [alike.escapes]
  rfl

/-- Renderings agree where their partials do, whatever number of partials each of them counts
from. All nodes outside partials are rendered at the depth of the context. -/
theorem agree_renderNodes
    (alike : style.Alike other) (metadata : host.metadata = otherHost.metadata)
    (partials : ∀ name scope context out, context.depth = depth →
      Agree excused (style.appendPartial host name scope context out)
        (other.appendPartial otherHost name scope (context.atDepth otherDepth) out))
    (nodes : List Node) {context : Context} (level : context.depth = depth) (out : String) :
    Agree excused (style.renderNodes host nodes context out)
      (other.renderNodes otherHost nodes (context.atDepth otherDepth) out) := by
  induction nodes using Node.siblings_induction generalizing context out with
  | nil => exact .of_eq (by rw [renderNodes_nil, renderNodes_nil])
  | text content span rest inductionHypothesis =>
      rw [renderNodes_text, renderNodes_text]
      exact inductionHypothesis level _
  | comment content trim span rest inductionHypothesis =>
      rw [renderNodes_comment, renderNodes_comment]
      exact inductionHypothesis level _
  | expression path escaped trim span rest inductionHypothesis =>
      rw [renderNodes_expression, renderNodes_expression, metadata,
        alike.appendValue otherHost.metadata path escaped context otherDepth]
      exact inductionHypothesis level _
  | block tags body inverse rest bodyHypothesis inverseHypothesis restHypothesis =>
      rw [renderNodes_cons, renderNodes_cons, renderNode_block style host alike.standard,
        renderNode_block other otherHost alike.otherStandard, metadata, passages?_atDepth]
      refine Agree.bind ?_ fun text => restHypothesis level text
      cases found : passages? otherHost.metadata context tags body inverse with
      | none => exact .of_eq rfl
      | some passages =>
          rw [Option.map_some]
          dsimp only
          rw [List.foldlM_map]
          refine Agree.foldlM (fun passage member out => ?_) out
          have same := (depth_of_mem_passages? found member).trans level
          rw [renderPassage, renderPassage, Passage.atDepth]
          rcases nodes_of_mem_passages? found member with nodes | nodes
          · rw [nodes]
            exact bodyHypothesis same out
          · rw [nodes]
            exact inverseHypothesis same out
  | partialTag name scope trim span rest inductionHypothesis =>
      rw [renderNodes_partialTag, renderNodes_partialTag]
      exact (partials name scope context out level).bind fun text => inductionHypothesis level text

theorem agree_renderNode_block
    (standard : style.helpers = .builtin) (tags : BlockTags) {body otherBody : List Node}
    {inverse otherInverse : Option (List Node)}
    (bodies : ∀ context out, Agree excused (style.renderNodes host body context out)
      (style.renderNodes host otherBody context out))
    (inverses : ∀ context out,
      Agree excused (style.renderNodes host (inverse.getD []) context out)
        (style.renderNodes host (otherInverse.getD []) context out))
    (context : Context) (out : String) :
    Agree excused (style.renderNode host (.block tags body inverse) context out)
      (style.renderNode host (.block tags otherBody otherInverse) context out) := by
  rw [style.renderNode_block_turns host standard, style.renderNode_block_turns host standard]
  cases Plan.builtin? tags.helper with
  | none => exact .of_eq rfl
  | some plan =>
      refine Agree.foldlM (fun turn _ out => ?_) out
      by_cases main : turn.main = true
      · rw [if_pos main, if_pos main]
        exact bodies turn.context out
      · rw [if_neg main, if_neg main]
        exact inverses turn.context out

/-- Whether a second rendering can nest partials as deep as a first one: it has as much room
below its limit, and where the first one meets its own limit that is excused, or the second one
does so in the same way. -/
structure Room (excused : TemplateError → Prop) (style other : Style)
    (depth otherDepth : Nat) : Prop where
  enough : style.options.maxPartialDepth + otherDepth ≤ other.options.maxPartialDepth + depth
  exceeds : (∀ name, excused (.partialDepthExceeded name style.options.maxPartialDepth)) ∨
    style.options.maxPartialDepth = other.options.maxPartialDepth ∧ depth = otherDepth

theorem Room.refl
    (excused : TemplateError → Prop) (style : Style) (depth : Nat) :
    Room excused style style depth depth :=
  ⟨Nat.le_refl _, .inr ⟨rfl, rfl⟩⟩

theorem Room.deeper (room : Room excused style other depth otherDepth) :
    Room excused style other (depth + 1) (otherDepth + 1) := by
  obtain ⟨enough, exceeds⟩ := room
  refine ⟨by omega, exceeds.imp_right ?_⟩
  rintro ⟨limits, depths⟩
  exact ⟨limits, congrArg (· + 1) depths⟩

private theorem agree_appendPartial
    (metadata : host.metadata = otherHost.metadata)
    (room : Room excused style other depth otherDepth)
    (calls : ∀ name inner, inner.depth = depth + 1 →
      inner.depth ≤ style.options.maxPartialDepth →
        Agree excused (host.callPartial name inner)
          (otherHost.callPartial name (inner.atDepth (otherDepth + 1))))
    (name : String) (scope : Option Path) {context : Context} (level : context.depth = depth)
    (out : String) :
    Agree excused (style.appendPartial host name scope context out)
      (other.appendPartial otherHost name scope (context.atDepth otherDepth) out) := by
  obtain ⟨enough, exceeds⟩ := room
  rcases Nat.lt_or_ge context.depth style.options.maxPartialDepth with shallow | deep
  · have otherShallow :
        (context.atDepth otherDepth).depth < other.options.maxPartialDepth := by
      show otherDepth < _
      omega
    rw [appendPartial_of_lt _ _ _ _ _ shallow, appendPartial_of_lt _ _ _ _ _ otherShallow,
      metadata, forPartial_atDepth]
    refine (calls name _ ?_ ?_).bind fun text => .of_eq rfl
    · rw [depth_forPartial, level]
    · rw [depth_forPartial]
      exact shallow
  · rw [appendPartial_of_limit_le _ _ _ _ _ deep]
    rcases exceeds with excuse | ⟨limits, depths⟩
    · exact .of_excused (excuse name) _
    · have otherDeep :
          other.options.maxPartialDepth ≤ (context.atDepth otherDepth).depth := by
        show _ ≤ otherDepth
        omega
      rw [appendPartial_of_limit_le _ _ _ _ _ otherDeep, limits]
      exact .of_eq rfl

/-- A document calls partials one level deeper than it is rendered, and none past the limit:
its renderings agree where those calls do. -/
theorem agree_renderNodes_of_calls
    (alike : style.Alike other) (metadata : host.metadata = otherHost.metadata)
    {context : Context} (room : Room excused style other context.depth otherDepth)
    (calls : ∀ name inner, inner.depth = context.depth + 1 →
      inner.depth ≤ style.options.maxPartialDepth →
        Agree excused (host.callPartial name inner)
          (otherHost.callPartial name (inner.atDepth (otherDepth + 1))))
    (nodes : List Node) (out : String) :
    Agree excused (style.renderNodes host nodes context out)
      (other.renderNodes otherHost nodes (context.atDepth otherDepth) out) := by
  apply agree_renderNodes alike metadata _ nodes rfl out
  intro name scope inner out level
  exact agree_appendPartial metadata room calls name scope level out

theorem renderNodes_congr
    (standard : style.helpers = .builtin) (metadata : host.metadata = otherHost.metadata)
    {context : Context}
    (calls : ∀ name inner, inner.depth = context.depth + 1 →
      inner.depth ≤ style.options.maxPartialDepth →
        host.callPartial name inner = otherHost.callPartial name inner)
    (nodes : List Node) (out : String) :
    style.renderNodes host nodes context out = style.renderNodes otherHost nodes context out := by
  have agree : Agree (fun _ => False) (style.renderNodes host nodes context out)
      (style.renderNodes otherHost nodes (context.atDepth context.depth) out) := by
    apply agree_renderNodes_of_calls (.refl standard) metadata (.refl _ style _) _ nodes out
    intro name inner deeper within
    rw [← deeper]
    exact .of_eq (calls name inner deeper within)
  exact (agree.eq_of_not_excused fun _ impossible => impossible.elim).symm

end Style

end Stencil
