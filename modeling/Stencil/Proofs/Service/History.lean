import Mathlib.Data.List.DropRight
import Stencil.Service.Request
import Stencil.Service.Settings

/-!
What a service stores, told from its history. The template of a name is the one of the first
named compilation that succeeded since the name was last freed; the partial of a name is the
first one that was ever registered.
-/

namespace Stencil

namespace Request

def templateSource? (name : String) : Request → Option String
  | .compileNamed source given => if given = name then some source else none
  | .compileAndRun source _ (some given) =>
      if given = name ∧ given ≠ "" then some source else none
  | _ => none

def frees (name : String) : Request → Bool
  | .remove given => given = name
  | _ => false

/-- Whether a request is a named compilation, a removal or a registration. -/
def mayStore : Request → Bool
  | .compileNamed .. | .remove _ | .registerPartial .. | .registerNative .. => true
  | .compileAndRun _ _ (some name) => name ≠ ""
  | _ => false

end Request

/-- A request, with the service that it is made to. -/
structure Call where
  service : Service
  request : Request

namespace Call

def compiled? (name : String) (call : Call) : Option Template :=
  (call.request.templateSource? name).bind fun source =>
    (call.service.compile source).1.toOption

/-- The partial that a call offers for a name: a source that compiles, or a function. -/
def registered? (name : String) (call : Call) : Option PartialBody :=
  match call.request with
  | .registerPartial given source =>
      if given = name then (call.service.compilePartial source).toOption else none
  | .registerNative given body => if given = name then some (.native body) else none
  | _ => none

end Call

namespace Service

def calls (service : Service) : List Request → List Call
  | [] => []
  | request :: later => ⟨service, request⟩ :: (service.answer request).2.calls later

theorem eq_ok_of_toOption
    {ε α : Type} {result : Except ε α} {item : α} (reads : result.toOption = some item) :
    result = .ok item := by
  cases result with
  | error error => exact nomatch reads
  | ok other => exact congrArg Except.ok (Option.some.inj reads)

section Step

variable (service : Service)

theorem compile_of_error
    {source : String} {error : TemplateError}
    (fails : service.compileDocument source = .error error) :
    service.compile source = (.error error, service) := by
  rw [compile, fails]

theorem compile_of_ok
    {source : String} {document : Document}
    (compiles : service.compileDocument source = .ok document) :
    service.compile source =
      (.ok ⟨service.nextSerial, document⟩,
        { service with nextSerial := service.nextSerial + 1 }) := by
  rw [compile, compiles]

private theorem exists_serial_compile (source : String) :
    ∃ serial, (service.compile source).2 = { service with nextSerial := serial } := by
  unfold compile
  split
  · exact ⟨service.nextSerial, rfl⟩
  · exact ⟨service.nextSerial + 1, rfl⟩

private theorem registries_compile (source : String) :
    (service.compile source).2.templates = service.templates ∧
      (service.compile source).2.partials = service.partials := by
  obtain ⟨serial, same⟩ := service.exists_serial_compile source
  rw [same]
  exact ⟨rfl, rfl⟩

theorem compileNamed_of_taken
    (source : String) {name : String} {template : Template}
    (taken : service.templates.get? name = some template) :
    service.compileNamed source name = (.ok template, service) := by
  rw [compileNamed, taken]

theorem compileNamed_of_error
    {source name : String} {error : TemplateError}
    (free : service.templates.get? name = none)
    (fails : service.compileDocument source = .error error) :
    service.compileNamed source name = (.error error, service) := by
  rw [compileNamed, free]
  dsimp only
  rw [compile_of_error service fails]

theorem compileNamed_of_ok
    {source name : String} {document : Document}
    (free : service.templates.get? name = none)
    (compiles : service.compileDocument source = .ok document) :
    service.compileNamed source name =
      (.ok ⟨service.nextSerial, document⟩,
        { service with
          nextSerial := service.nextSerial + 1
          templates :=
            (service.templates.insertIfNew name ⟨service.nextSerial, document⟩).2.2 }) := by
  rw [compileNamed, free]
  dsimp only
  rw [compile_of_ok service compiles]
  dsimp only
  rw [Registry.insertIfNew, free]

private theorem get?_compileNamed (source given name : String) :
    (service.compileNamed source given).2.templates.get? name =
      (service.templates.get? name).or
        (if given = name then (service.compile source).1.toOption else none) := by
  cases taken : service.templates.get? given with
  | some template =>
      rw [compileNamed_of_taken service source taken]
      by_cases same : given = name
      · subst same
        rw [taken, Option.some_or]
      · rw [if_neg same, Option.or_none]
  | none =>
      cases compiles : service.compileDocument source with
      | error error =>
          rw [compileNamed_of_error service taken compiles, compile_of_error service compiles]
          by_cases same : given = name
          · rw [if_pos same]
            exact Option.or_none.symm
          · rw [if_neg same, Option.or_none]
      | ok document =>
          rw [compileNamed_of_ok service taken compiles, compile_of_ok service compiles]
          dsimp only
          rw [Registry.get?_insertIfNew]
          by_cases same : given = name
          · subst same
            rw [if_pos rfl, if_pos rfl, taken]
            rfl
          · rw [if_neg same, if_neg same, Option.or_none]

private theorem exists_templates_compileNamed (source name : String) :
    ∃ serial templates, (service.compileNamed source name).2 =
      { service with nextSerial := serial, templates } := by
  cases taken : service.templates.get? name with
  | some template =>
      rw [compileNamed_of_taken service source taken]
      exact ⟨service.nextSerial, service.templates, rfl⟩
  | none =>
      cases compiles : service.compileDocument source with
      | error error =>
          rw [compileNamed_of_error service taken compiles]
          exact ⟨service.nextSerial, service.templates, rfl⟩
      | ok document =>
          rw [compileNamed_of_ok service taken compiles]
          exact ⟨_, _, rfl⟩

private theorem partials_compileNamed (source name : String) :
    (service.compileNamed source name).2.partials = service.partials := by
  obtain ⟨serial, templates, same⟩ := service.exists_templates_compileNamed source name
  rw [same]

theorem anonymous_or_named (name : Option String) :
    (name = none ∨ name = some "") ∨ ∃ given, given ≠ "" ∧ name = some given := by
  cases name with
  | none => exact .inl (.inl rfl)
  | some given =>
      by_cases empty : given = ""
      · exact .inl (.inr (congrArg some empty))
      · exact .inr ⟨given, empty, rfl⟩

theorem compileAndRun_of_name
    (source : String) (model : Value) {name : String} (nonempty : name ≠ "") :
    service.compileAndRun source model (some name) =
      ((service.compileNamed source name).1.bind fun template =>
          (service.compileNamed source name).2.render template model,
        (service.compileNamed source name).2) := by
  have filtered : (some name).filter (fun name => !name.isEmpty) = some name := by
    simpa using nonempty
  rw [compileAndRun, filtered]

theorem compileAndRun_of_anonymous
    (source : String) (model : Value) {name : Option String}
    (anonymous : name = none ∨ name = some "") :
    service.compileAndRun source model name =
      ((service.compile source).1.bind fun template =>
          (service.compile source).2.render template model,
        (service.compile source).2) := by
  rcases anonymous with rfl | rfl <;> rfl

theorem registerPartial_of_taken
    {name : String} (source : String) (taken : service.partials.contains name = true) :
    service.registerPartial name source = (.ok (), service) := by
  rw [registerPartial, if_pos taken]

theorem registerPartial_of_error
    {name source : String} {error : TemplateError}
    (free : service.partials.contains name = false)
    (fails : service.compilePartial source = .error error) :
    service.registerPartial name source = (.error error, service) := by
  rw [registerPartial, free, if_neg Bool.false_ne_true, fails]

theorem registerPartial_of_ok
    {name source : String} {body : PartialBody}
    (free : service.partials.contains name = false)
    (compiles : service.compilePartial source = .ok body) :
    service.registerPartial name source = (.ok (), service.insertPartial name body) := by
  rw [registerPartial, free, if_neg Bool.false_ne_true, compiles]

private theorem templates_registerPartial (name source : String) :
    (service.registerPartial name source).2.templates = service.templates := by
  unfold registerPartial
  split
  · rfl
  · split <;> rfl

private theorem get?_insertPartial (given : String) (body : PartialBody) (name : String) :
    (service.insertPartial given body).partials.get? name =
      (service.partials.get? name).or (if given = name then some body else none) := by
  rw [insertPartial, Registry.get?_insertIfNew]
  by_cases same : given = name
  · subst same
    rw [if_pos rfl, if_pos rfl]
    cases service.partials.get? given <;> rfl
  · rw [if_neg same, if_neg same, Option.or_none]

/-- Requests change what is stored and how many templates there were, and nothing else. -/
theorem exists_registries_answer (request : Request) :
    ∃ serial templates partials, (service.answer request).2 =
      { service with nextSerial := serial, templates, partials } := by
  cases request with
  | compile source =>
      obtain ⟨serial, same⟩ := service.exists_serial_compile source
      exact ⟨serial, _, _, same⟩
  | compileNamed source name =>
      obtain ⟨serial, templates, same⟩ := service.exists_templates_compileNamed source name
      exact ⟨serial, templates, _, same⟩
  | compileAndRun source model name =>
      show ∃ serial templates partials, (service.compileAndRun source model name).2 = _
      rcases anonymous_or_named name with anonymous | ⟨name, nonempty, rfl⟩
      · rw [compileAndRun_of_anonymous service source model anonymous]
        obtain ⟨serial, same⟩ := service.exists_serial_compile source
        exact ⟨serial, _, _, same⟩
      · rw [compileAndRun_of_name service source model nonempty]
        obtain ⟨serial, templates, same⟩ := service.exists_templates_compileNamed source name
        exact ⟨serial, templates, _, same⟩
  | registerPartial name source =>
      show ∃ serial templates partials, (service.registerPartial name source).2 = _
      unfold registerPartial
      split
      · exact ⟨_, _, _, rfl⟩
      · split
        · exact ⟨_, _, _, rfl⟩
        · exact ⟨_, _, _, rfl⟩
  | run | remove | compilePartial | registerNative | renderPartial => exact ⟨_, _, _, rfl⟩

theorem exists_document_of_compilePartial
    {source : String} {body : PartialBody} (compiles : service.compilePartial source = .ok body) :
    ∃ document, service.compileDocument source = .ok document ∧ body = .document document := by
  rw [compilePartial] at compiles
  cases result : service.compileDocument source with
  | error error =>
      rw [result] at compiles
      exact nomatch compiles
  | ok document =>
      rw [result] at compiles
      exact ⟨document, rfl, (Except.ok.inj compiles).symm⟩

theorem compiles_or_native_of_registered?
    {request : Request} {name : String} {body : PartialBody}
    (offered : Call.registered? name ⟨service, request⟩ = some body) :
    (∃ source, service.compilePartial source = .ok body) ∨
      ∃ run, request = .registerNative name run ∧ body = .native run := by
  cases request with
  | registerPartial given source =>
      unfold Call.registered? at offered
      dsimp only at offered
      split at offered
      · exact .inl ⟨source, eq_ok_of_toOption offered⟩
      · exact nomatch offered
  | registerNative given run =>
      unfold Call.registered? at offered
      dsimp only at offered
      split at offered
      · rename_i same
        rw [same]
        exact .inr ⟨run, rfl, (Option.some.inj offered).symm⟩
      · exact nomatch offered
  | compile | compileNamed | compileAndRun | run | remove | compilePartial | renderPartial =>
      exact nomatch offered

/-- A request that is no named compilation, no removal and no registration stores nothing. -/
theorem registries_of_not_mayStore
    {request : Request} (inert : request.mayStore = false) :
    (service.answer request).2.templates = service.templates ∧
      (service.answer request).2.partials = service.partials := by
  cases request with
  | compile source => exact registries_compile service source
  | compileAndRun source model name =>
      rcases anonymous_or_named name with anonymous | ⟨given, nonempty, rfl⟩
      · show (service.compileAndRun source model name).2.templates = _ ∧
          (service.compileAndRun source model name).2.partials = _
        rw [compileAndRun_of_anonymous service source model anonymous]
        exact registries_compile service source
      · exact absurd inert (by simp [Request.mayStore, nonempty])
  | run | compilePartial | renderPartial => exact ⟨rfl, rfl⟩
  | compileNamed | remove | registerPartial | registerNative => exact Bool.noConfusion inert

private theorem get?_templates_of_inert
    {request : Request} {name : String} (source : request.templateSource? name = none)
    (same : (service.answer request).2.templates = service.templates) :
    (service.answer request).2.templates.get? name =
      (service.templates.get? name).or (Call.compiled? name ⟨service, request⟩) := by
  rw [same, Call.compiled?, source, Option.bind_none, Option.or_none]

private theorem get?_templates_of_named
    {request : Request} {source given name : String}
    (offer : request.templateSource? name = if given = name then some source else none)
    (same : (service.answer request).2 = (service.compileNamed source given).2) :
    (service.answer request).2.templates.get? name =
      (service.templates.get? name).or (Call.compiled? name ⟨service, request⟩) := by
  rw [same, get?_compileNamed, Call.compiled?, offer]
  by_cases named : given = name
  · rw [if_pos named, if_pos named, Option.bind_some]
  · rw [if_neg named, if_neg named, Option.bind_none]

theorem get?_templates_answer (request : Request) (name : String) :
    (service.answer request).2.templates.get? name =
      if request.frees name then none
      else (service.templates.get? name).or (Call.compiled? name ⟨service, request⟩) := by
  cases request with
  | compileNamed source given => exact get?_templates_of_named service rfl rfl
  | compileAndRun source model given =>
      rcases anonymous_or_named given with (rfl | rfl) | ⟨given, nonempty, rfl⟩
      · exact get?_templates_of_inert service rfl (registries_of_not_mayStore service rfl).1
      · have offer : (Request.compileAndRun source model (some "")).templateSource? name =
            none := by simp [Request.templateSource?]
        exact get?_templates_of_inert service offer
          (registries_of_not_mayStore service rfl).1
      · have offer : (Request.compileAndRun source model (some given)).templateSource? name =
            if given = name then some source else none := by
          simp [Request.templateSource?, nonempty]
        refine get?_templates_of_named service offer ?_
        show (service.compileAndRun source model (some given)).2 = _
        rw [compileAndRun_of_name service source model nonempty]
  | remove given =>
      show (service.templates.erase given).get? name = _
      rw [Registry.get?_erase]
      simp [Request.frees, Call.compiled?, Request.templateSource?]
  | registerPartial given source =>
      exact get?_templates_of_inert service rfl (templates_registerPartial service given source)
  | compile | run | compilePartial | renderPartial =>
      exact get?_templates_of_inert service rfl (registries_of_not_mayStore service rfl).1
  | registerNative => exact get?_templates_of_inert service rfl rfl

theorem get?_partials_answer (request : Request) (name : String) :
    (service.answer request).2.partials.get? name =
      (service.partials.get? name).or (Call.registered? name ⟨service, request⟩) := by
  have kept (offer : Call.registered? name ⟨service, request⟩ = none)
      (same : (service.answer request).2.partials = service.partials) :
      (service.answer request).2.partials.get? name =
        (service.partials.get? name).or (Call.registered? name ⟨service, request⟩) := by
    rw [same, offer, Option.or_none]
  cases request with
  | registerPartial given source =>
      show (service.registerPartial given source).2.partials.get? name =
        (service.partials.get? name).or
          (if given = name then (service.compilePartial source).toOption else none)
      by_cases taken : service.partials.contains given = true
      · rw [registerPartial_of_taken service source taken]
        by_cases same : given = name
        · subst same
          obtain ⟨body, found⟩ := Option.isSome_iff_exists.mp taken
          rw [found, Option.some_or]
        · rw [if_neg same, Option.or_none]
      · have free : service.partials.contains given = false := Bool.eq_false_iff.mpr taken
        cases compiles : service.compilePartial source with
        | error error =>
            rw [registerPartial_of_error service free compiles]
            by_cases same : given = name
            · rw [if_pos same]
              exact Option.or_none.symm
            · rw [if_neg same, Option.or_none]
        | ok body =>
            rw [registerPartial_of_ok service free compiles]
            exact get?_insertPartial service given body name
  | registerNative given body => exact get?_insertPartial service given (.native body) name
  | compileNamed source given => exact kept rfl (partials_compileNamed service source given)
  | compileAndRun source model given =>
      refine kept rfl ?_
      show (service.compileAndRun source model given).2.partials = _
      rcases anonymous_or_named given with anonymous | ⟨given, nonempty, rfl⟩
      · rw [compileAndRun_of_anonymous service source model anonymous]
        exact (registries_compile service source).2
      · rw [compileAndRun_of_name service source model nonempty]
        exact partials_compileNamed service source given
  | remove | run | compilePartial | renderPartial => exact kept rfl rfl
  | compile => exact kept rfl (registries_of_not_mayStore service rfl).2

theorem get?_of_answer_compileNamed
    {source name : String} {template : Template} {later : Service}
    (answers : service.answer (.compileNamed source name) = (.template template, later)) :
    later.templates.get? name = some template := by
  rw [answer] at answers
  cases taken : service.templates.get? name with
  | some stored =>
      rw [compileNamed_of_taken service source taken, Prod.mk.injEq] at answers
      rw [← answers.2, taken, Reply.template.inj answers.1]
  | none =>
      cases compiles : service.compileDocument source with
      | error error =>
          rw [compileNamed_of_error service taken compiles, Prod.mk.injEq] at answers
          exact nomatch answers.1
      | ok document =>
          rw [compileNamed_of_ok service taken compiles, Prod.mk.injEq] at answers
          rw [← answers.2, ← Reply.template.inj answers.1]
          dsimp only
          rw [Registry.get?_insertIfNew, if_pos rfl, taken]
          rfl

end Step

/-! ## Histories -/

theorem exists_registries_after (service : Service) (history : List Request) :
    ∃ serial templates partials, service.after history =
      { service with nextSerial := serial, templates, partials } := by
  induction history generalizing service with
  | nil => exact ⟨_, _, _, rfl⟩
  | cons request rest inductionHypothesis =>
      obtain ⟨serial, templates, partials, same⟩ := service.exists_registries_answer request
      obtain ⟨lastSerial, lastTemplates, lastPartials, last⟩ :=
        inductionHypothesis (service.answer request).2
      refine ⟨lastSerial, lastTemplates, lastPartials, ?_⟩
      show (service.answer request).2.after rest = _
      rw [last, same]

section Histories

variable (service : Service) (history : List Request) (name : String)

end Histories

end Service

end Stencil
