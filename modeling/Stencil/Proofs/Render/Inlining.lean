import Stencil.Proofs.Render.Buffer
import Stencil.Proofs.Render.Limit

/-!
A partial stands for its document. Unless the limit is met, calling a partial comes to the same
as rendering its document in place of the call.
-/

namespace Stencil

/-- Whether nodes come from others by putting a document in the place of one call of a partial
without an argument, wherever the call stands. -/
inductive Inlines (name : String) (document : Document) : List Node → List Node → Prop
  | here (trim : Trim) (span : Span) (rest : List Node) :
      Inlines name document (.partialTag name none trim span :: rest) (document.nodes ++ rest)
  | later (node : Node) {rest after : List Node} :
      Inlines name document rest after →
      Inlines name document (node :: rest) (node :: after)
  | body (tags : BlockTags) {body after : List Node} (inverse : Option (List Node))
      (rest : List Node) :
      Inlines name document body after →
      Inlines name document (.block tags body inverse :: rest)
        (.block tags after inverse :: rest)
  | inverse (tags : BlockTags) (body : List Node) {inverse after : List Node}
      (rest : List Node) :
      Inlines name document inverse after →
      Inlines name document (.block tags body (some inverse) :: rest)
        (.block tags body (some after) :: rest)

namespace Partials

section Calls

variable {style : Style} (standard : style.helpers = .builtin) (metadata : Metadata)
  {table : Registry PartialBody} (documents : Documents table) {name : String}
  {document : Document} (bound : table.get? name = some (.document document))

include standard documents bound

private theorem agree_appendPartial_render
    (scope : Option Path) (context : Context) (out : String) :
    Agree TemplateError.OfLimit
      (style.appendPartial
        (host style.render metadata table style.options.maxPartialDepth) name scope context out)
      ((render style metadata table document
          ((context.forPartial (Style.partialScope metadata context scope)).atDepth
            context.depth)).map
        fun text => out ++ text) := by
  rcases Nat.lt_or_ge context.depth style.options.maxPartialDepth with shallow | deep
  · rw [Style.appendPartial, if_neg (Nat.not_le.mpr shallow)]
    apply Agree.map
    rw [host, nestingBound]
    dsimp only
    rw [call_succ _ _ _ _ bound]
    -- The document of a partial is rendered one level deeper and with one call less to nest.
    have level := depth_forPartial context (Style.partialScope metadata context scope)
    apply agree_renderNodes (.refl standard) metadata documents (.refl _ table) document.nodes
    · apply Style.room_of_le
      omega
    · omega
    · exact limit_le_nestingBound table _ _
  · rw [Style.appendPartial_of_limit_le _ _ _ _ _ deep]
    exact .of_excused ⟨name, _, rfl⟩ _

private theorem agree_renderNodes_of_inlines
    {nodes after : List Node} (inlines : Inlines name document nodes after) (context : Context)
    (out : String) :
    Agree TemplateError.OfLimit
      (style.renderNodes
        (host style.render metadata table style.options.maxPartialDepth) nodes context out)
      (style.renderNodes
        (host style.render metadata table style.options.maxPartialDepth) after context out) := by
  induction inlines generalizing context out with
  | here trim span rest =>
      rw [Style.renderNodes_partialTag, Style.renderNodes_append,
        style.renderNodes_eq_map _ standard document.nodes]
      have agree :=
        agree_appendPartial_render standard metadata documents bound none context out
      exact agree.bind fun text => .of_eq rfl
  | later node _ inductionHypothesis =>
      rw [Style.renderNodes_cons, Style.renderNodes_cons]
      exact Agree.bind (.of_eq rfl) fun text => inductionHypothesis context text
  | body tags inverse rest _ inductionHypothesis =>
      rw [Style.renderNodes_cons, Style.renderNodes_cons]
      refine Agree.bind ?_ fun text => .of_eq rfl
      apply Style.agree_renderNode_block standard tags inductionHypothesis
      exact fun context out => .of_eq rfl
  | inverse tags body rest _ inductionHypothesis =>
      rw [Style.renderNodes_cons, Style.renderNodes_cons]
      refine Agree.bind ?_ fun text => .of_eq rfl
      apply Style.agree_renderNode_block standard tags _ inductionHypothesis
      exact fun context out => .of_eq rfl

end Calls

/-- Unless the limit is met, a call of a partial can be replaced by the document of the partial,
and a call with an argument appends the text of the document within the argument. -/
theorem render_inlined
    (style : Style) (standard : style.helpers = .builtin) (metadata : Metadata)
    {table : Registry PartialBody} (documents : Documents table) {name : String}
    {document : Document} (bound : table.get? name = some (.document document))
    (context : Context) :
    (∀ whole inlined : Document, Inlines name document whole.nodes inlined.nodes →
      ¬ ExceedsLimit (render style metadata table whole context) →
        render style metadata table inlined context =
          render style metadata table whole context) ∧
    (∀ path trim span out,
      let call := style.renderNode
        (host style.render metadata table style.options.maxPartialDepth)
        (.partialTag name (some path) trim span) context out
      let value := (context.lookup metadata path).getD .null
      ¬ ExceedsLimit call →
        call = (render style metadata table document (context.child value)).map
          fun text => out ++ text) := by
  constructor
  · intro whole inlined inlines within
    have agree :=
      agree_renderNodes_of_inlines standard metadata documents bound inlines context ""
    exact agree.eq_of_not_exceedsLimit within
  · intro path trim span out call value within
    have agree :=
      agree_appendPartial_render standard metadata documents bound (some path) context out
    have rendered : call = style.appendPartial
        (host style.render metadata table style.options.maxPartialDepth) name (some path)
        context out := by
      show style.renderNode _ _ context out = _
      rw [Style.renderNode]
    rw [rendered] at within ⊢
    exact (agree.eq_of_not_exceedsLimit within).symm

/-- A row that is called in every round of an iteration, and once with the rows as its value. -/
theorem render_inlined_rows :
    let rows : Path := ⟨0, .context, ["rows"]⟩
    let document : Document :=
      ⟨[.expression ⟨0, .data "index", []⟩ true default default,
        .expression ⟨1, .context, ["label"]⟩ true default default]⟩
    let each (nodes : List Node) : Document :=
      ⟨[.block ⟨"each", rows, default, default, default, default⟩ nodes none]⟩
    let table := (Registry.empty.insertIfNew "row" (PartialBody.document document)).2.2
    let whole := each [.partialTag "row" none default default]
    let context : Context :=
      .ofModel (.object [("label", .string "-"), ("rows", .array [.null, .null])])
    let call := Style.standard.renderNode (host Style.standard.render .standard table 64)
      (.partialTag "row" (some rows) default default) context "rows "
    (¬ ExceedsLimit (render .standard .standard table whole context) ∧
      render .standard .standard table (each document.nodes) context = .ok "0-1-") ∧
    (¬ ExceedsLimit call ∧
      call = (render .standard .standard table document
        (context.child (.array [.null, .null]))).map fun text => "rows " ++ text) := by
  intro rows document each table whole context call
  have rendered : render .standard .standard table whole context = .ok "0-1-" := by
    decide +kernel
  have called : call = .ok "rows -" := by decide +kernel
  have documents : Documents table := documents_empty.insertIfNew "row" document
  have bound : table.get? "row" = some (.document document) := by
    rw [Registry.get?_insertIfNew, if_pos rfl, Registry.get?_empty]
    rfl
  have inlined := render_inlined .standard rfl .standard documents bound context
  have within : ¬ ExceedsLimit (render .standard .standard table whole context) := by
    rw [rendered]
    exact nofun
  have callWithin : ¬ ExceedsLimit call := by
    rw [called]
    exact nofun
  refine ⟨⟨within, ?_⟩, callWithin, ?_⟩
  · have inlines : Inlines "row" document whole.nodes (each document.nodes).nodes :=
      .body _ none [] (.here default default [])
    exact (inlined.1 whole (each document.nodes) inlines within).trans rendered
  · exact inlined.2 rows default default "rows " callWithin

end Partials

end Stencil
