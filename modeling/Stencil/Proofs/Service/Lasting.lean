import Stencil.Proofs.Render.Calls
import Stencil.Proofs.Service.History

/-!
What later requests can change about a rendering. Where all partials are documents, a rendering
that did not lack a partial comes out the same forever, and one that lacked a partial lacks the
same one as long as it is not registered.
-/

namespace Stencil

def Request.registersNative : Request → Bool
  | .registerNative .. => true
  | _ => false

private theorem Call.document_of_registered?
    {service : Service} {request : Request} {name : String} {body : PartialBody}
    (plain : request.registersNative = false)
    (offered : Call.registered? name ⟨service, request⟩ = some body) :
    ∃ document, body = .document document := by
  rcases service.compiles_or_native_of_registered? offered with ⟨source, compiles⟩ | native
  · obtain ⟨document, _, same⟩ := service.exists_document_of_compilePartial compiles
    exact ⟨document, same⟩
  · obtain ⟨run, rfl, _⟩ := native
    exact nomatch plain

namespace Partials

def Extends (later table : Registry PartialBody) : Prop :=
  ∀ name body, table.get? name = some body → later.get? name = some body

/-- Whether an error is the lack of a partial that a table has. -/
def Supplied (table : Registry PartialBody) (error : TemplateError) : Prop :=
  ∃ name, error = .unknownPartial name ∧ table.contains name = true

private theorem supplies_of_extends
    {table later : Registry PartialBody} (extends' : Extends later table) :
    Supplies (Supplied later) table later := by
  intro name
  cases found : table.get? name with
  | some body => exact .inl (extends' name body found)
  | none =>
      cases foundLater : later.get? name with
      | none => exact .inl rfl
      | some body =>
          refine .inr ⟨rfl, name, rfl, ?_⟩
          rw [Registry.contains, foundLater]
          rfl

end Partials

namespace Service

/-- Whether a service renders as another one does, but for the registries. -/
structure RendersAs (later service : Service) : Prop where
  renderer : later.renderer = service.renderer
  metadata : later.metadata = service.metadata
  nesting : later.nesting = service.nesting

section Step

variable (service : Service)

private theorem extends_answer (request : Request) :
    Partials.Extends (service.answer request).2.partials service.partials := by
  intro name body found
  rw [get?_partials_answer, found, Option.some_or]

private theorem documents_answer
    (documents : Partials.Documents service.partials) {request : Request}
    (plain : request.registersNative = false) :
    Partials.Documents (service.answer request).2.partials := by
  intro name body found
  rw [get?_partials_answer, Option.or_eq_some_iff] at found
  rcases found with stored | ⟨_, offered⟩
  · exact documents name body stored
  · exact Call.document_of_registered? plain offered

end Step

private theorem rendersAs_after (service : Service) (history : List Request) :
    (service.after history).RendersAs service := by
  obtain ⟨serial, templates, partials, same⟩ := service.exists_registries_after history
  rw [same]
  exact ⟨rfl, rfl, rfl⟩

private theorem extends_after (service : Service) (history : List Request) :
    Partials.Extends (service.after history).partials service.partials := by
  induction history generalizing service with
  | nil => exact fun _ _ found => found
  | cons request rest inductionHypothesis =>
      intro name body found
      exact inductionHypothesis _ name body (extends_answer service request name body found)

private theorem documents_after
    {service : Service} (documents : Partials.Documents service.partials)
    {history : List Request} (plain : ∀ request ∈ history, request.registersNative = false) :
    Partials.Documents (service.after history).partials := by
  induction history generalizing service with
  | nil => exact documents
  | cons request rest inductionHypothesis =>
      rw [List.forall_mem_cons] at plain
      exact inductionHypothesis (documents_answer service documents plain.1) plain.2

private theorem documents_build (settings : Settings) :
    Partials.Documents settings.build.partials := by
  intro name body found
  rw [Settings.build, fresh, Registry.get?_empty] at found
  exact nomatch found

/-- Where all partials are documents, renderings before and after some requests agree, unless
the first one lacked a partial that the requests supplied. -/
theorem agree_render_after
    {service : Service} {style : Style} (renderer : service.renderer = style.render)
    (nesting : service.nesting = style.options.maxPartialDepth)
    (standard : style.helpers = .builtin) (documents : Partials.Documents service.partials)
    (later : List Request) (template : Template) (model : Value) :
    Agree (Partials.Supplied (service.after later).partials) (service.render template model)
      ((service.after later).render template model) := by
  have same := rendersAs_after service later
  unfold render host
  rw [same.renderer, same.metadata, same.nesting, renderer, nesting]
  exact Partials.agree_render (.refl standard) service.metadata documents
    (Partials.supplies_of_extends (extends_after service later)) template.document
    (.refl _ style _)

/-- Requests change no rendering that did not lack a partial, and none that lacked one as long
as they do not register it. -/
theorem render_after_history
    (settings : Settings) (builtIn : settings.renderer = none)
    (standard : settings.helpers = .builtin) (earlier later : List Request)
    (documents : Partials.Documents (settings.build.after earlier).partials)
    (template : Template) (model : Value) :
    ((∀ name, (settings.build.after earlier).render template model ≠
          .error (.unknownPartial name)) →
      ((settings.build.after earlier).after later).render template model =
        (settings.build.after earlier).render template model) ∧
    (∀ name, (settings.build.after earlier).render template model =
          .error (.unknownPartial name) →
        ((settings.build.after earlier).after later).partials.contains name = false →
      ((settings.build.after earlier).after later).render template model =
        .error (.unknownPartial name)) := by
  have same := rendersAs_after settings.build earlier
  have renderer : (settings.build.after earlier).renderer = settings.style.render := by
    rw [same.renderer, Settings.build, builtIn]
    rfl
  have agree := agree_render_after renderer same.nesting standard documents later template model
  constructor
  · intro supplied
    rcases agree with equal | ⟨error, lacked, name, rfl, _⟩
    · exact equal.symm
    · exact absurd lacked (supplied name)
  · intro name lacked free
    rcases agree with equal | ⟨error, failed, other, rfl, taken⟩
    · rw [← equal, lacked]
    · rw [failed] at lacked
      obtain rfl : other = name := by injection lacked with same; injection same
      exact absurd taken (by rw [free]; exact Bool.false_ne_true)

theorem render_after_history_greeting :
    let greeting : Template := ⟨0, ⟨[.partialTag "greeting" none default default]⟩⟩
    let farewell : Template := ⟨1, ⟨[.partialTag "farewell" none default default]⟩⟩
    let service := Settings.standard.build.after [.registerPartial "greeting" "Hello"]
    let later := service.after [.registerPartial "thanks" "Thanks", .remove "page"]
    later.render greeting .null = .ok "Hello" ∧
      later.render farewell .null = .error (.unknownPartial "farewell") := by
  intro greeting farewell service later
  have documents : Partials.Documents service.partials :=
    documents_after (documents_build .standard) (by simp [Request.registersNative])
  have lasting := render_after_history .standard rfl rfl
    [.registerPartial "greeting" "Hello"]
    [.registerPartial "thanks" "Thanks", .remove "page"] documents
  have greeted : service.render greeting .null = .ok "Hello" := by decide +kernel
  have lacked : service.render farewell .null = .error (.unknownPartial "farewell") := by
    decide +kernel
  have free : later.partials.contains "farewell" = false := by decide +kernel
  constructor
  · rw [← greeted]
    apply (lasting greeting .null).1
    intro name
    rw [greeted]
    exact nofun
  · exact (lasting farewell .null).2 "farewell" lacked free

end Service

end Stencil
