import Mathlib.Control.Monad.Basic
import Stencil.Proofs.Builder.HelperReports
import Stencil.Proofs.Service.Registrations
import Stencil.Proofs.Service.Resolving

/-!
The parser and the renderer of a service have the same helpers. Compiling reports each block
without a helper, and what compiles never lacks one when it is rendered.
-/

namespace Stencil

namespace Service

def diagnostics (service : Service) (source : String) : List Diagnostic :=
  match (service.compile source).1 with
  | .ok _ => []
  | .error error => error.diagnostics?.getD []

private theorem diagnostics_eq_readLenient
    {service : Service} {table : BlockTable}
    (parser : service.compiler.parser = Document.read table) (source : String) :
    service.diagnostics source = (Document.readLenient table source).2 := by
  rw [diagnostics, compile, compileDocument, Compiler.compile, parser, Document.read]
  rcases Document.readLenient table source with ⟨document, _ | ⟨first, others⟩⟩
  · rfl
  · rfl

/-- Whether the reports of a service about the helpers of blocks follow from the tags of the
source and from rules on arguments. The account of all these reports holds of every source; a
report is told by its span as long as positions do not wrap around. -/
structure ReportsBy (rule? : String → Option ArgumentRule) (service : Service) : Prop where
  account : ∀ source,
    (service.diagnostics source).filter Diagnostic.ofHelper =
      Diagnostic.sortByPlace ((Token.content source).flatMap (Token.helperReports rule?))
  unknownBlock : ∀ source, byteLength source.toList < 2 ^ 32 →
    ∀ token ∈ Token.content source, ∀ name arguments, token.kind = .blockOpen →
      token.words = name :: arguments →
        (Document.ReportedAs .unknownBlock (service.diagnostics source) token ↔
          rule? name = none)
  missingArgument : ∀ source, byteLength source.toList < 2 ^ 32 →
    ∀ token ∈ Token.content source, ∀ name arguments, token.kind = .blockOpen →
      token.words = name :: arguments →
        (Document.ReportedAs .missingArgument (service.diagnostics source) token ↔
          rule? name = some .required ∧ arguments = [])

private theorem reportsBy_of_reading
    {service : Service} {table : BlockTable}
    (parser : service.compiler.parser = Document.read table) :
    service.ReportsBy table.rule? := by
  have reads := diagnostics_eq_readLenient parser
  constructor
  case account =>
    intro source
    rw [reads]
    exact Document.filter_readLenient table source
  case unknownBlock =>
    intro source short token member name arguments kind words
    rw [reads, Document.reportedAs_iff table short member (.inl rfl)]
    exact Token.exists_unknownBlock_iff kind words
  case missingArgument =>
    intro source short token member name arguments kind words
    rw [reads, Document.reportedAs_iff table short member (.inr rfl)]
    exact Token.exists_missingArgument_iff kind words

end Service

namespace Service

/-- Whether nothing that a service compiles or holds comes to the lack of a helper in a later
state of the service. -/
structure FindsHelpersIn (later service : Service) : Prop where
  template : ∀ source template, (service.compile source).1 = .ok template →
    ∀ model, FindsHelpers (later.render template model)
  partialBody : ∀ source body, service.compilePartial source = .ok body →
    Faithful (body.run later.renderer)
  call : ∀ name context, FindsHelpers (later.runPartial name context)
  answer : ∀ request name, (later.answer request).1 ≠ .failed (.unknownHelper name)

private theorem Resolves.findsHelpersIn_after
    {helpers : HelperTable} {service : Service} (resolves : service.Resolves helpers)
    {later : List Request} (faithful : ∀ request ∈ later, request.Faithful) :
    (service.after later).FindsHelpersIn service := by
  have now := resolves.after faithful
  obtain ⟨serial, templates, partials, after⟩ := service.exists_registries_after later
  constructor
  case template =>
    intro source template compiles model
    exact now.findsHelpers_render (resolves.within_of_compile compiles) model
  case partialBody =>
    intro source body compiles
    rw [after]
    exact resolves.faithful_of_compilePartial compiles
  case call => exact now.findsHelpers_host
  case answer => exact now.answer_ne

end Service

namespace Settings

private theorem contains_blockTable (helpers : HelperTable) (name : String) :
    helpers.blockTable.contains name = helpers.contains name := by
  rw [BlockTable.contains, HelperTable.rule?_blockTable, HelperTable.contains, Option.isSome_map]

private theorem resolves_build
    (settings : Settings) (parser : settings.parser = none) (renderer : settings.renderer = none)
    (stages : ∀ stage ∈ settings.pipeline.stages, stage.AddsNoHelpers)
    (faithful : ∀ name helper, settings.helpers.get? name = some helper → helper.Faithful)
    (nesting : Nat) :
    Service.Resolves settings.helpers { settings.build with nesting } := by
  constructor
  case compiled =>
    intro source document compiles name member
    rw [Service.compileDocument, Compiler.compile, build, parser] at compiles
    change ((Document.read settings.helpers.blockTable source).map _).mapError _ = _ at compiles
    cases accepted : Document.read settings.helpers.blockTable source with
    | error diagnostics =>
        rw [accepted] at compiles
        cases compiles
    | ok read =>
        rw [accepted] at compiles
        obtain rfl := Except.ok.inj compiles
        have inRead := settings.pipeline.helpers_apply_subset stages read member
        rw [← contains_blockTable]
        exact Document.contains_of_read accepted inRead
  case rendered =>
    intro document known
    rw [build, renderer]
    exact Style.faithful_render faithful known
  case templates =>
    intro name template found
    rw [build, Service.fresh, Registry.get?_empty] at found
    cases found
  case partials =>
    intro name body found
    rw [build, Service.fresh, Registry.get?_empty] at found
    cases found

private theorem parser_after_build
    (settings : Settings) (parser : settings.parser = none) (nesting : Nat)
    (history : List Request) :
    (Service.after { settings.build with nesting } history).compiler.parser =
      Document.read settings.helpers.blockTable := by
  obtain ⟨serial, templates, partials, after⟩ :=
    Service.exists_registries_after { settings.build with nesting } history
  rw [after]
  show settings.parser.getD _ = _
  rw [parser, Option.getD_none]

end Settings

/-- The parser and the renderer of a service agree about its helpers. -/
theorem Settings.helpers_agree
    (settings : Settings) (parser : settings.parser = none) (renderer : settings.renderer = none)
    (standard : settings.helpers = .builtin)
    (stages : ∀ stage ∈ settings.pipeline.stages,
      stage = .whitespaceCollapse ∨ stage.AddsNoHelpers)
    (registrations : List (String × Helper)) (nesting : Nat) :
    let service : Service := { (settings.withHelpers registrations).build with nesting }
    (∀ history, (service.after history).ReportsBy (registeredRule? registrations)) ∧
      ((∀ entry ∈ registrations, entry.2.Faithful) →
        ∀ earlier later, (∀ request ∈ earlier ++ later, request.Faithful) →
          ((service.after earlier).after later).FindsHelpersIn (service.after earlier)) := by
  have known := settings.get?_withHelpers registrations standard
  obtain ⟨helpers, same⟩ := settings.exists_helpers_withHelpers registrations
  rw [same] at known ⊢
  have rules : helpers.blockTable.rule? = registeredRule? registrations := by
    funext name
    rw [HelperTable.rule?_blockTable, known, registeredRule?]
  constructor
  · intro history
    rw [← rules]
    apply Service.reportsBy_of_reading
    exact parser_after_build { settings with helpers } parser nesting history
  · intro faithful earlier later requests
    rw [List.forall_mem_append] at requests
    have resolves :
        Service.Resolves helpers { build { settings with helpers } with nesting } := by
      apply resolves_build { settings with helpers } parser renderer
      · intro stage member
        rcases stages stage member with rfl | addsNone
        · exact Stage.whitespaceCollapse_addsNoHelpers
        · exact addsNone
      · intro name helper found
        rw [known] at found
        exact faithful_of_registered? faithful found
    exact (resolves.after requests.1).findsHelpersIn_after requests.2

/-- A service with a helper that renders its block twice and an `if` that may do without an
argument, and a partial that calls another one. -/
theorem Settings.helpers_agree_twice :
    let twice : Helper :=
      ⟨.optional, fun call out => (call.body call.context out).bind (call.body call.context)⟩
    let registrations : List (String × Helper) :=
      [("twice", twice), ("if", { Helper.ifTrue with argument := .optional })]
    let service : Service :=
      { (Settings.standard.withHelpers registrations).build with nesting := 64 }
    let outer (host : Host) (context : Context) : Outcome := host.callPartial "inner" context
    let tag := Fault.tagText
    let faulty := tag "#each" ++ tag "/each" ++ tag "#x" ++ tag "/x"
    let doubled := tag "#if" ++ tag "#twice" ++ tag "this" ++ tag "/twice" ++ tag "/if"
    let before := service.after [.registerNative "outer" outer]
    let now := before.after [.registerPartial "inner" doubled]
    let reports : List Diagnostic :=
      [⟨.missingArgument "each", ⟨⟨1, 1⟩, 9⟩⟩, ⟨.unknownBlock "x", ⟨⟨1, 19⟩, 6⟩⟩]
    (∀ stage ∈ Settings.standard.pipeline.stages,
        stage = .whitespaceCollapse ∨ stage.AddsNoHelpers) ∧
      (∀ entry ∈ registrations, entry.2.Faithful) ∧
      service.ReportsBy (registeredRule? registrations) ∧
      service.diagnostics faulty = reports ∧
      now.FindsHelpersIn before ∧
      now.renderPartial "outer" (.string "a") = .ok "aa" := by
  intro twice registrations service outer tag faulty doubled before now reports
  have stages : ∀ stage ∈ Settings.standard.pipeline.stages,
      stage = .whitespaceCollapse ∨ stage.AddsNoHelpers := by
    intro stage member
    exact .inl (List.mem_singleton.mp member)
  have agree := Settings.helpers_agree .standard rfl rfl rfl stages registrations 64
  have faithful : ∀ entry ∈ registrations, entry.2.Faithful := by
    intro entry member
    rcases List.mem_cons.mp member with rfl | later
    · intro call _ body _ out
      exact (body call.context out).bind fun text _ => body call.context text
    · have standard : Helper.ifTrue.Faithful :=
        faithful_of_builtin ((HelperTable.get?_builtin "if").trans rfl)
      rw [List.mem_singleton.mp later]
      exact standard
  have requests : ∀ request ∈
      [Request.registerNative "outer" outer] ++ [.registerPartial "inner" doubled],
      request.Faithful := by
    intro request member
    rcases List.mem_cons.mp member with rfl | later
    · exact fun host finds context => finds "inner" context
    · rw [List.mem_singleton.mp later]
      trivial
  let table := (Settings.standard.withHelpers registrations).helpers.blockTable
  have found : (Builder.run table (Token.content faulty)).finish ++
      (Token.content faulty).filterMap Token.diagnostic? = reports := by
    decide +kernel
  refine ⟨stages, faithful, agree.1 [], ?_, agree.2 faithful _ _ requests, ?_⟩
  · have parser : service.compiler.parser = Document.read table := rfl
    rw [Service.diagnostics_eq_readLenient parser, Document.readLenient_eq]
    dsimp only
    rw [found]
    exact List.mergeSort_of_pairwise (by decide)
  · decide +kernel

end Stencil
