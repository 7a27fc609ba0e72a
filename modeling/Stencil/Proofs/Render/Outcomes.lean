import Stencil.Partials
import Stencil.Proofs.Document.Marks
import Stencil.Proofs.Render.Passages

/-!
What renderings can come to. What holds of each text that a mark of a document appends, and of
each error that it can end in, holds of the outcome of the whole document.
-/

namespace Stencil

/-- Whether an outcome is one of some texts or one of some errors. -/
def Yields (texts : String → Prop) (errors : TemplateError → Prop) : Outcome → Prop
  | .ok text => texts text
  | .error error => errors error

/-- Whether texts can be put together to texts of the same kind. -/
structure Composable (texts : String → Prop) : Prop where
  empty : texts ""
  append : ∀ first second, texts first → texts second → texts (first ++ second)

namespace Yields

variable {texts : String → Prop} {errors : TemplateError → Prop} {outcome : Outcome}

theorem bind
    (first : Yields texts errors outcome) {next : String → Outcome}
    (later : ∀ text, texts text → Yields texts errors (next text)) :
    Yields texts errors (outcome.bind next) := by
  cases outcome with
  | error error => exact first
  | ok text => exact later text first

theorem map
    (first : Yields texts errors outcome) {change : String → String}
    (changed : ∀ text, texts text → texts (change text)) :
    Yields texts errors (outcome.map change) := by
  cases outcome with
  | error error => exact first
  | ok text => exact changed text first

theorem foldlM
    {α : Type} {items : List α} {take : String → α → Outcome}
    (each : ∀ item ∈ items, ∀ out, texts out → Yields texts errors (take out item))
    {out : String} (start : texts out) :
    Yields texts errors (items.foldlM take out) := by
  induction items generalizing out with
  | nil => exact start
  | cons item rest inductionHypothesis =>
      rw [List.forall_mem_cons] at each
      rw [List.foldlM_cons]
      exact bind (each.1 out start) fun text here => inductionHypothesis each.2 here

end Yields

/-- Whether a helper yields only what the sections of its block do, given how partials are
called. -/
def Helper.Keeps (texts : String → Prop) (errors : TemplateError → Prop)
    (callPartial : String → Context → Outcome) (helper : Helper) : Prop :=
  ∀ call : HelperCall, call.callPartial = callPartial →
    (∀ context out, texts out → Yields texts errors (call.body context out)) →
    (∀ context out, texts out → Yields texts errors (call.inverse context out)) →
    ∀ out, texts out → Yields texts errors (helper.render call out)

section Helpers

variable {texts : String → Prop} {errors : TemplateError → Prop}
  {callPartial : String → Context → Outcome}

theorem Helper.Follows.keeps
    {helper : Helper} {plan : Plan} (follows : helper.Follows plan) :
    helper.Keeps texts errors callPartial := by
  intro call _ body inverse out start
  rw [follows]
  refine Yields.foldlM (fun turn _ out here => ?_) start
  rw [HelperCall.take]
  by_cases main : turn.main = true
  · rw [if_pos main]
    exact body turn.context out here
  · rw [if_neg main]
    exact inverse turn.context out here

theorem keeps_of_builtin
    {name : String} {helper : Helper} (found : HelperTable.builtin.get? name = some helper) :
    helper.Keeps texts errors callPartial := by
  have follows := builtin_follows name
  rw [found] at follows
  generalize Plan.builtin? name = plan at follows
  cases follows with
  | some follows => exact follows.keeps

end Helpers

private theorem Node.marksNodes_getD_subset (middle : Trim) (inverse : Option (List Node)) :
    marksNodes (inverse.getD []) ⊆ marksInverse middle inverse := by
  cases inverse with
  | none => exact List.nil_subset _
  | some nodes => exact List.subset_cons_self _ _

namespace Style

variable {style : Style} {host : Host} {texts : String → Prop} {errors : TemplateError → Prop}

/-- Whether each mark appends one of some texts, or ends in one of some errors. -/
structure Allows (style : Style) (host : Host) (texts : String → Prop)
    (errors : TemplateError → Prop) (marks : List Mark) : Prop where
  text : ∀ content span, .leaf (.text content span) ∈ marks → texts content
  value : ∀ path escaped trim span, .leaf (.expression path escaped trim span) ∈ marks →
    ∀ context out, texts out →
      texts (style.appendValue host.metadata path escaped context out)
  unknown : ∀ name argument trim span, .opening name argument trim span ∈ marks →
    style.helpers.get? name = none → errors (.unknownHelper name)
  helper : ∀ name argument trim span, .opening name argument trim span ∈ marks →
    ∀ helper, style.helpers.get? name = some helper →
      helper.Keeps texts errors host.callPartial
  partialTag : ∀ name scope trim span, .leaf (.partialTag name scope trim span) ∈ marks →
    ∀ context, Yields texts errors (host.callPartial name context)
  exceeded : ∀ name limit, errors (.partialDepthExceeded name limit)

theorem Allows.mono
    {marks fewer : List Mark} (allows : style.Allows host texts errors marks)
    (subset : fewer ⊆ marks) : style.Allows host texts errors fewer where
  text content span member := allows.text content span (subset member)
  value path escaped trim span member := allows.value path escaped trim span (subset member)
  unknown name argument trim span member :=
    allows.unknown name argument trim span (subset member)
  helper name argument trim span member := allows.helper name argument trim span (subset member)
  partialTag name scope trim span member :=
    allows.partialTag name scope trim span (subset member)
  exceeded := allows.exceeded

theorem Allows.rest
    {node : Node} {rest : List Node}
    (allows : style.Allows host texts errors (Node.marksNodes (node :: rest))) :
    style.Allows host texts errors (Node.marksNodes rest) := by
  apply allows.mono
  rw [Node.marksNodes]
  exact List.subset_append_right _ _

theorem Allows.node
    {node : Node} {rest : List Node}
    (allows : style.Allows host texts errors (Node.marksNodes (node :: rest))) :
    style.Allows host texts errors node.marks := by
  apply allows.mono
  rw [Node.marksNodes]
  exact List.subset_append_left _ _

private theorem yields_appendPartial
    (composable : Composable texts) {name : String} {scope : Option Path}
    (called : ∀ context, Yields texts errors (host.callPartial name context))
    (exceeded : ∀ name limit, errors (.partialDepthExceeded name limit)) (context : Context)
    {out : String} (start : texts out) :
    Yields texts errors (style.appendPartial host name scope context out) := by
  unfold appendPartial
  split
  · exact exceeded name _
  · exact (called _).map fun text here => composable.append out text start here

private theorem yields_renderNode_block
    {tags : BlockTags} {body : List Node} {inverse : Option (List Node)}
    (allows : style.Allows host texts errors (Node.block tags body inverse).marks)
    (bodies : ∀ context out, texts out →
      Yields texts errors (style.renderNodes host body context out))
    (inverses : ∀ context out, texts out →
      Yields texts errors (style.renderNodes host (inverse.getD []) context out))
    (context : Context) {out : String} (start : texts out) :
    Yields texts errors (style.renderNode host (.block tags body inverse) context out) := by
  rw [renderNode]
  dsimp only
  have opening : Mark.opening tags.helper tags.argument tags.opening tags.span ∈
      (Node.block tags body inverse).marks := by
    rw [Node.marks]
    exact List.mem_cons_self
  cases found : style.helpers.get? tags.helper with
  | none => exact allows.unknown _ _ _ _ opening found
  | some helper =>
      refine allows.helper _ _ _ _ opening helper found _ rfl bodies ?_ out start
      intro context out here
      dsimp only
      rw [renderInverse_eq]
      exact inverses context out here

theorem yields_renderNodes
    (composable : Composable texts) {nodes : List Node}
    (allows : style.Allows host texts errors (Node.marksNodes nodes)) (context : Context)
    {out : String} (start : texts out) :
    Yields texts errors (style.renderNodes host nodes context out) := by
  induction nodes using Node.siblings_induction generalizing context out with
  | nil =>
      rw [renderNodes_nil]
      exact start
  | text content span rest inductionHypothesis =>
      rw [renderNodes_text]
      have here := allows.node.text content span (by rw [Node.marks]; exact List.mem_cons_self)
      exact inductionHypothesis allows.rest context (composable.append out content start here)
  | comment content trim span rest inductionHypothesis =>
      rw [renderNodes_comment]
      exact inductionHypothesis allows.rest context start
  | expression path escaped trim span rest inductionHypothesis =>
      rw [renderNodes_expression]
      have here := allows.node.value path escaped trim span
        (by rw [Node.marks]; exact List.mem_cons_self) context out start
      exact inductionHypothesis allows.rest context here
  | block tags body inverse rest bodyHypothesis inverseHypothesis restHypothesis =>
      rw [renderNodes_cons]
      have sections := allows.node
      have whole := sections
      rw [Node.marks] at sections
      have bodyAllows : style.Allows host texts errors (Node.marksNodes body) := by
        apply sections.mono
        intro mark member
        simp [member]
      have inverseAllows :
          style.Allows host texts errors (Node.marksNodes (inverse.getD [])) := by
        apply sections.mono
        intro mark member
        simp [Node.marksNodes_getD_subset tags.middle inverse member]
      have block := yields_renderNode_block whole
        (fun context out here => bodyHypothesis bodyAllows context here)
        (fun context out here => inverseHypothesis inverseAllows context here) context start
      exact block.bind fun text here => restHypothesis allows.rest context here
  | partialTag name scope trim span rest inductionHypothesis =>
      rw [renderNodes_partialTag]
      have called := allows.node.partialTag name scope trim span
        (by rw [Node.marks]; exact List.mem_cons_self)
      have here : Yields texts errors (style.appendPartial host name scope context out) :=
        yields_appendPartial composable called allows.exceeded context start
      exact here.bind fun text later => inductionHypothesis allows.rest context later

end Style

namespace Partials

variable {renderer : Renderer} {metadata : Metadata} {table : Registry PartialBody}
  {texts : String → Prop} {errors : TemplateError → Prop}

/-- What holds of each partial of some names, if it holds of the calls of these names, holds of
all their calls. -/
theorem yields_call_of_known
    {known : String → Prop}
    (unknown : ∀ name, known name → table.get? name = none → errors (.unknownPartial name))
    (exceeded : ∀ name limit, errors (.partialDepthExceeded name limit))
    (bodies : ∀ name body, known name → table.get? name = some body → ∀ host : Host,
      host.metadata = metadata →
      (∀ name, known name → ∀ context, Yields texts errors (host.callPartial name context)) →
        ∀ context, Yields texts errors (body.run renderer host context))
    (nesting : Nat) {name : String} (listed : known name) (context : Context) :
    Yields texts errors (call renderer metadata table nesting name context) := by
  -- A partial calls others with one call less to nest.
  induction nesting generalizing name context with
  | zero =>
      cases found : table.get? name with
      | none =>
          rw [call_of_free _ _ _ _ found]
          exact unknown name listed found
      | some body =>
          rw [call, found]
          exact exceeded name context.depth
  | succ nesting inductionHypothesis =>
      cases found : table.get? name with
      | none =>
          rw [call_of_free _ _ _ _ found]
          exact unknown name listed found
      | some body =>
          rw [call_succ _ _ _ _ found]
          apply bodies name body listed found _ rfl
          exact fun other listed context => inductionHypothesis listed context

theorem yields_call
    (unknown : ∀ name, table.get? name = none → errors (.unknownPartial name))
    (exceeded : ∀ name limit, errors (.partialDepthExceeded name limit))
    (bodies : ∀ name body, table.get? name = some body → ∀ host : Host,
      host.metadata = metadata →
      (∀ name context, Yields texts errors (host.callPartial name context)) →
        ∀ context, Yields texts errors (body.run renderer host context))
    (nesting : Nat) (name : String) (context : Context) :
    Yields texts errors (call renderer metadata table nesting name context) := by
  apply @yields_call_of_known _ _ _ _ _ fun _ => True
  · exact fun name _ => unknown name
  · exact exceeded
  · intro name body _ found host same called
    exact bodies name body found host same fun name => called name trivial
  · trivial

end Partials

end Stencil
