import Stencil.Proofs.Render.KnownHelpers
import Stencil.Proofs.Service.History

/-!
Services that resolve their helpers. All that such a service compiles has known helpers only, and
so has all that it stores, whatever it is asked; hence nothing that it renders lacks a helper.
-/

namespace Stencil

/-- Whether a request registers no function that comes to the lack of a helper by itself. -/
def Request.Faithful : Request → Prop
  | .registerNative _ body => Stencil.Faithful body
  | _ => True

private theorem Reply.ofExcept_ne
    {α : Type} {onSuccess : α → Reply} {result : Except TemplateError α} {error : TemplateError}
    (success : ∀ item, onSuccess item ≠ .failed error) (other : result ≠ .error error) :
    ofExcept onSuccess result ≠ .failed error := by
  cases result with
  | error found => exact fun same => other (congrArg Except.error (Reply.failed.inj same))
  | ok item => exact success item

namespace Service

/-- Whether a service compiles to documents within a table, stores no others, and finds the
helpers of those when it renders them. -/
structure Resolves (helpers : HelperTable) (service : Service) : Prop where
  compiled : ∀ source document, service.compileDocument source = .ok document →
    document.Within helpers
  rendered : ∀ document : Document, document.Within helpers →
    Faithful fun host context => service.renderer host document context
  templates : ∀ name template, service.templates.get? name = some template →
    template.document.Within helpers
  partials : ∀ name body, service.partials.get? name = some body →
    Faithful (body.run service.renderer)

section Compiling

variable (service : Service)

private theorem exists_diagnostics_of_error
    {source : String} {error : TemplateError}
    (fails : service.compileDocument source = .error error) :
    ∃ diagnostics, error = .invalidSource diagnostics := by
  rw [compileDocument] at fails
  cases result : service.compiler.compile source with
  | ok document =>
      rw [result] at fails
      cases fails
  | error diagnostics =>
      rw [result] at fails
      exact ⟨diagnostics, (Except.error.inj fails).symm⟩

private theorem findsHelpers_compile (source : String) :
    FindsHelpers (service.compile source).1 := by
  intro name
  cases result : service.compileDocument source with
  | error error =>
      obtain ⟨diagnostics, rfl⟩ := service.exists_diagnostics_of_error result
      rw [compile_of_error service result]
      exact nofun
  | ok document =>
      rw [compile_of_ok service result]
      exact nofun

private theorem findsHelpers_compileNamed (source name : String) :
    FindsHelpers (service.compileNamed source name).1 := by
  intro helper
  cases taken : service.templates.get? name with
  | some template =>
      rw [compileNamed_of_taken service source taken]
      exact nofun
  | none =>
      cases result : service.compileDocument source with
      | error error =>
          obtain ⟨diagnostics, rfl⟩ := service.exists_diagnostics_of_error result
          rw [compileNamed_of_error service taken result]
          exact nofun
      | ok document =>
          rw [compileNamed_of_ok service taken result]
          exact nofun

private theorem findsHelpers_compilePartial (source : String) :
    FindsHelpers (service.compilePartial source) := by
  intro name
  rw [compilePartial]
  cases result : service.compileDocument source with
  | error error =>
      obtain ⟨diagnostics, rfl⟩ := service.exists_diagnostics_of_error result
      intro failed
      cases failed
  | ok document =>
      intro failed
      cases failed

private theorem findsHelpers_registerPartial (name source : String) :
    FindsHelpers (service.registerPartial name source).1 := by
  intro helper
  by_cases taken : service.partials.contains name = true
  · rw [registerPartial_of_taken service source taken]
    exact nofun
  · have free := Bool.eq_false_iff.mpr taken
    cases result : service.compilePartial source with
    | error error =>
        have other := service.findsHelpers_compilePartial source helper
        rw [result] at other
        rw [registerPartial_of_error service free result]
        exact fun same => other (congrArg Except.error (Except.error.inj same))
    | ok body =>
        rw [registerPartial_of_ok service free result]
        exact nofun

end Compiling

section Resolves

variable {helpers : HelperTable} {service : Service}

theorem Resolves.within_of_compile
    (resolves : service.Resolves helpers) {source : String} {template : Template}
    (compiles : (service.compile source).1 = .ok template) :
    template.document.Within helpers := by
  cases result : service.compileDocument source with
  | error error =>
      rw [compile_of_error service result] at compiles
      exact nomatch compiles
  | ok document =>
      rw [compile_of_ok service result] at compiles
      obtain rfl := Except.ok.inj compiles
      exact resolves.compiled source document result

theorem Resolves.faithful_of_compilePartial
    (resolves : service.Resolves helpers) {source : String} {body : PartialBody}
    (compiles : service.compilePartial source = .ok body) :
    Faithful (body.run service.renderer) := by
  obtain ⟨document, result, rfl⟩ := service.exists_document_of_compilePartial compiles
  exact resolves.rendered document (resolves.compiled source document result)

theorem Resolves.faithful_of_registered?
    (resolves : service.Resolves helpers) {request : Request} (faithful : request.Faithful)
    {name : String} {body : PartialBody}
    (offered : Call.registered? name ⟨service, request⟩ = some body) :
    Faithful (body.run service.renderer) := by
  rcases service.compiles_or_native_of_registered? offered with ⟨source, compiles⟩ | native
  · exact resolves.faithful_of_compilePartial compiles
  · obtain ⟨run, rfl, rfl⟩ := native
    exact faithful

private theorem Resolves.within_of_compiled?
    (resolves : service.Resolves helpers) {request : Request} {name : String}
    {template : Template} (offered : Call.compiled? name ⟨service, request⟩ = some template) :
    template.document.Within helpers := by
  obtain ⟨source, _, compiles⟩ := Option.bind_eq_some_iff.mp offered
  exact resolves.within_of_compile (eq_ok_of_toOption compiles)

/-- Faithful requests leave all that is stored as it should be. -/
theorem Resolves.answer
    (resolves : service.Resolves helpers) {request : Request} (faithful : request.Faithful) :
    (service.answer request).2.Resolves helpers := by
  obtain ⟨serial, templates, partials, same⟩ := service.exists_registries_answer request
  have storedTemplates := get?_templates_answer service request
  have storedPartials := get?_partials_answer service request
  rw [same] at storedTemplates storedPartials ⊢
  constructor
  case compiled => exact resolves.compiled
  case rendered => exact resolves.rendered
  case templates =>
    intro name template found
    rw [storedTemplates] at found
    split at found
    · exact nomatch found
    · rcases Option.or_eq_some_iff.mp found with stored | ⟨_, offered⟩
      · exact resolves.templates name template stored
      · exact resolves.within_of_compiled? offered
  case partials =>
    intro name body found
    rw [storedPartials] at found
    rcases Option.or_eq_some_iff.mp found with stored | ⟨_, offered⟩
    · exact resolves.partials name body stored
    · exact resolves.faithful_of_registered? faithful offered

theorem Resolves.after
    (resolves : service.Resolves helpers) {history : List Request}
    (faithful : ∀ request ∈ history, request.Faithful) :
    (service.after history).Resolves helpers := by
  induction history generalizing service with
  | nil => exact resolves
  | cons request rest inductionHypothesis =>
      rw [List.forall_mem_cons] at faithful
      exact inductionHypothesis (resolves.answer faithful.1) faithful.2

theorem Resolves.findsHelpers_host (resolves : service.Resolves helpers) :
    service.host.FindsHelpers :=
  Partials.findsHelpers_call service.metadata resolves.partials _

theorem Resolves.findsHelpers_render
    (resolves : service.Resolves helpers) {template : Template}
    (known : template.document.Within helpers) (model : Value) :
    FindsHelpers (service.render template model) :=
  resolves.rendered template.document known service.host resolves.findsHelpers_host _

private theorem Resolves.findsHelpers_compileAndRun
    (resolves : service.Resolves helpers) (source : String) (model : Value)
    (name : Option String) : FindsHelpers (service.compileAndRun source model name).1 := by
  rcases anonymous_or_named name with anonymous | ⟨name, nonempty, rfl⟩
  · rw [compileAndRun_of_anonymous service source model anonymous]
    have faithful : (Request.compile source).Faithful := trivial
    have later : (service.compile source).2.Resolves helpers := resolves.answer faithful
    refine (service.findsHelpers_compile source).bind fun template compiles => ?_
    exact later.findsHelpers_render (resolves.within_of_compile compiles) model
  · rw [compileAndRun_of_name service source model nonempty]
    -- The template may be an old one, so it is taken from those that are stored afterwards.
    have faithful : (Request.compileNamed source name).Faithful := trivial
    have later : (service.compileNamed source name).2.Resolves helpers :=
      resolves.answer faithful
    refine (service.findsHelpers_compileNamed source name).bind fun template compiles => ?_
    have answers : service.answer (.compileNamed source name) =
        (.template template, (service.compileNamed source name).2) := by
      show (Reply.ofExcept .template (service.compileNamed source name).1, _) = _
      rw [compiles]
      rfl
    have stored := later.templates name template (service.get?_of_answer_compileNamed answers)
    exact later.findsHelpers_render stored model

private theorem Resolves.findsHelpers_run
    (resolves : service.Resolves helpers) (name : String) (model : Value) :
    FindsHelpers (service.run name model) := by
  unfold run
  cases found : service.templates.get? name with
  | none => exact fun _ => nofun
  | some template =>
      have known := resolves.templates name template found
      exact resolves.findsHelpers_render known model

theorem Resolves.answer_ne
    (resolves : service.Resolves helpers) (request : Request) (name : String) :
    (service.answer request).1 ≠ .failed (.unknownHelper name) := by
  cases request with
  | compile source =>
      exact Reply.ofExcept_ne (fun _ => nofun) (service.findsHelpers_compile source name)
  | compileNamed source given =>
      exact Reply.ofExcept_ne (fun _ => nofun)
        (service.findsHelpers_compileNamed source given name)
  | compileAndRun source model given =>
      exact Reply.ofExcept_ne (fun _ => nofun)
        (resolves.findsHelpers_compileAndRun source model given name)
  | run given model =>
      exact Reply.ofExcept_ne (fun _ => nofun) (resolves.findsHelpers_run given model name)
  | compilePartial source =>
      exact Reply.ofExcept_ne (fun _ => nofun) (service.findsHelpers_compilePartial source name)
  | registerPartial given source =>
      exact Reply.ofExcept_ne (fun _ => nofun)
        (service.findsHelpers_registerPartial given source name)
  | renderPartial given model =>
      exact Reply.ofExcept_ne (fun _ => nofun) (resolves.findsHelpers_host given _ name)
  | remove given => exact nofun
  | registerNative given body => exact nofun

end Resolves

end Service

end Stencil
