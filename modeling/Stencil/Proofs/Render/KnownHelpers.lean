import Stencil.Proofs.Document.HelperNames
import Stencil.Proofs.Render.Outcomes

/-!
Renderings that find all their helpers. A helper can only be lacking where a block calls for it,
unless the helper of another block, or a partial, comes up with that error by itself.
-/

namespace Stencil

/-- Whether a result is something else than the lack of a helper. -/
def FindsHelpers {α : Type} (result : Except TemplateError α) : Prop :=
  ∀ name, result ≠ .error (.unknownHelper name)

theorem FindsHelpers.bind
    {α β : Type} {result : Except TemplateError α} (finds : FindsHelpers result)
    {next : α → Except TemplateError β}
    (later : ∀ item, result = .ok item → FindsHelpers (next item)) :
    FindsHelpers (result.bind next) := by
  cases result with
  | error error => exact fun name same => finds name (congrArg Except.error (Except.error.inj same))
  | ok item => exact later item rfl

def TemplateError.OtherThanHelper (error : TemplateError) : Prop :=
  ∀ name, error ≠ .unknownHelper name

private theorem findsHelpers_iff_yields {outcome : Outcome} :
    FindsHelpers outcome ↔
      Yields (fun _ => True) TemplateError.OtherThanHelper outcome := by
  cases outcome with
  | ok text => exact ⟨fun _ => trivial, fun _ _ => nofun⟩
  | error error =>
      constructor
      · intro finds name same
        exact finds name (congrArg Except.error same)
      · intro other name same
        exact other name (Except.error.inj same)

def Host.FindsHelpers (host : Host) : Prop :=
  ∀ name context, Stencil.FindsHelpers (host.callPartial name context)

/-- Whether a helper never comes to the lack of a helper unless a section of its block or a
partial does. -/
def Helper.Faithful (helper : Helper) : Prop :=
  ∀ call : HelperCall,
    (∀ name context, FindsHelpers (call.callPartial name context)) →
    (∀ context out, FindsHelpers (call.body context out)) →
    (∀ context out, FindsHelpers (call.inverse context out)) →
    ∀ out, FindsHelpers (helper.render call out)

/-- Whether a function never comes to the lack of a helper unless a partial does that it
calls. -/
def Faithful (run : Host → Context → Outcome) : Prop :=
  ∀ host : Host, host.FindsHelpers → ∀ context, FindsHelpers (run host context)

theorem Helper.Faithful.keeps
    {helper : Helper} (faithful : helper.Faithful)
    {callPartial : String → Context → Outcome}
    (calls : ∀ name context, FindsHelpers (callPartial name context)) :
    helper.Keeps (fun _ => True) TemplateError.OtherThanHelper callPartial := by
  rintro call rfl body inverse out _
  apply findsHelpers_iff_yields.mp
  apply faithful call calls
  · exact fun context out => findsHelpers_iff_yields.mpr (body context out trivial)
  · exact fun context out => findsHelpers_iff_yields.mpr (inverse context out trivial)

theorem faithful_of_builtin
    {name : String} {helper : Helper} (found : HelperTable.builtin.get? name = some helper) :
    helper.Faithful := by
  intro call _ body inverse out
  have keeps : helper.Keeps (fun _ => True) TemplateError.OtherThanHelper call.callPartial :=
    keeps_of_builtin found
  apply findsHelpers_iff_yields.mpr
  apply keeps call rfl
  · exact fun context out _ => findsHelpers_iff_yields.mp (body context out)
  · exact fun context out _ => findsHelpers_iff_yields.mp (inverse context out)
  · trivial

theorem composable_true : Composable fun _ => True :=
  ⟨trivial, fun _ _ _ _ => trivial⟩

def Document.Within (helpers : HelperTable) (document : Document) : Prop :=
  ∀ name ∈ document.helpers, helpers.contains name = true

/-- With faithful helpers the documents within their table are faithful as well. -/
theorem Style.faithful_render
    {style : Style}
    (helpers : ∀ name helper, style.helpers.get? name = some helper → helper.Faithful)
    {document : Document} (known : document.Within style.helpers) :
    Faithful fun host context => style.render host document context := by
  intro host finds context
  apply findsHelpers_iff_yields.mpr
  apply yields_renderNodes composable_true _ context trivial
  constructor
  case text => exact fun _ _ _ => trivial
  case value => exact fun _ _ _ _ _ _ _ _ => trivial
  case unknown =>
    intro name argument trim span member free
    have contained := known name (Document.mem_helpers_of_opening member)
    rw [HelperTable.contains, free] at contained
    exact nomatch contained
  case helper => exact fun name _ _ _ _ helper found => (helpers name helper found).keeps finds
  case partialTag =>
    exact fun name _ _ _ _ context => findsHelpers_iff_yields.mp (finds name context)
  case exceeded => exact fun _ _ => nofun

theorem Partials.findsHelpers_call
    {renderer : Renderer} (metadata : Metadata) {table : Registry PartialBody}
    (bodies : ∀ name body, table.get? name = some body → Faithful (body.run renderer))
    (nesting : Nat) (name : String) (context : Context) :
    FindsHelpers (call renderer metadata table nesting name context) := by
  apply findsHelpers_iff_yields.mpr
  apply yields_call
  · exact fun _ _ => nofun
  · exact fun _ _ => nofun
  · intro name body found host _ called context
    apply findsHelpers_iff_yields.mp
    apply bodies name body found host
    exact fun name context => findsHelpers_iff_yields.mpr (called name context)

end Stencil
