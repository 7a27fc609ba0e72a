import Stencil.Proofs.Render.Agreement
import Stencil.Proofs.Render.Machine

/-!
Renderings end. The small steps of a rendering lead to the outcome that the rendering of the
whole document has, also where partials call each other in a circle: calls nest no deeper than
the limit, and between two calls the rest of a document only gets shorter.
-/

namespace Stencil

/-- The rendering that goes on with some tasks after an outcome. -/
def Progress.after (tasks : Tasks) : Outcome → Progress
  | .ok text => .running tasks text
  | .error error => .ended (.error error)

namespace Machine

def Reaches (machine : Machine) (progress later : Progress) : Prop :=
  ∃ count, machine.run count progress = later

variable {machine : Machine}

namespace Reaches

variable {progress later last : Progress}

theorem refl (progress : Progress) : machine.Reaches progress progress :=
  ⟨0, rfl⟩

theorem trans
    (first : machine.Reaches progress later) (second : machine.Reaches later last) :
    machine.Reaches progress last := by
  obtain ⟨count, rfl⟩ := first
  obtain ⟨more, rfl⟩ := second
  exact ⟨more + count, machine.run_add more count progress⟩

private theorem of_step (reaches : machine.Reaches (machine.step progress) later) :
    machine.Reaches progress later :=
  trans ⟨1, rfl⟩ reaches

theorem bind
    {tasks others : Tasks} {outcome : Outcome} {next : String → Outcome}
    (first : machine.Reaches progress (.after tasks outcome))
    (second : ∀ text, machine.Reaches (.running tasks text) (.after others (next text))) :
    machine.Reaches progress (.after others (outcome.bind next)) := by
  cases outcome with
  | error error => exact first
  | ok text => exact first.trans (second text)

end Reaches

private theorem reaches_passages
    {host : Host} {passages : List Passage}
    (each : ∀ passage ∈ passages, ∀ tasks out,
      machine.Reaches (.running (.passage passage :: tasks) out)
        (.after tasks (machine.style.renderPassage host out passage)))
    (tasks : Tasks) (out : String) :
    machine.Reaches (.running (passages.map .passage ++ tasks) out)
      (.after tasks (passages.foldlM (machine.style.renderPassage host) out)) := by
  induction passages generalizing out with
  | nil => exact .refl _
  | cons passage rest inductionHypothesis =>
      rw [List.foldlM_cons]
      rw [List.forall_mem_cons] at each
      exact (each.1 _ out).bind fun text => inductionHypothesis each.2 text

private theorem reaches_renderNodes
    {host : Host} {depth : Nat} (standard : machine.style.helpers = .builtin)
    (metadata : host.metadata = machine.metadata)
    (partials : ∀ name scope context tasks out, context.depth = depth →
      machine.Reaches (machine.enter name scope context tasks out)
        (.after tasks (machine.style.appendPartial host name scope context out)))
    (nodes : List Node) {context : Context} (level : context.depth = depth) (tasks : Tasks)
    (out : String) :
    machine.Reaches (.running (.passage ⟨nodes, context⟩ :: tasks) out)
      (.after tasks (machine.style.renderNodes host nodes context out)) := by
  induction nodes using Node.siblings_induction generalizing context tasks out with
  | nil =>
      rw [Style.renderNodes_nil]
      exact .of_step (.refl _)
  | text content span rest inductionHypothesis =>
      rw [Style.renderNodes_text]
      exact .of_step (inductionHypothesis level tasks _)
  | comment content trim span rest inductionHypothesis =>
      rw [Style.renderNodes_comment]
      exact .of_step (inductionHypothesis level tasks _)
  | expression path escaped trim span rest inductionHypothesis =>
      rw [Style.renderNodes_expression, metadata]
      exact .of_step (inductionHypothesis level tasks _)
  | block tags body inverse rest bodyHypothesis inverseHypothesis restHypothesis =>
      rw [Style.renderNodes_cons, Style.renderNode_block _ _ standard, metadata]
      apply Reaches.of_step
      rw [step, visit]
      refine Reaches.bind ?_ fun text => restHypothesis level tasks text
      cases found : passages? machine.metadata context tags body inverse with
      | none => exact .refl _
      | some passages =>
          refine reaches_passages (fun passage member tasks out => ?_) _ out
          have same := (depth_of_mem_passages? found member).trans level
          rw [Style.renderPassage]
          obtain ⟨nodes, inner⟩ := passage
          rcases nodes_of_mem_passages? found member with rfl | rfl
          · exact bodyHypothesis same tasks out
          · exact inverseHypothesis same tasks out
  | partialTag name scope trim span rest inductionHypothesis =>
      rw [Style.renderNodes_partialTag]
      apply Reaches.of_step
      exact (partials name scope context _ out level).bind fun text =>
        inductionHypothesis level tasks text

/-- A call of a partial is rendered step by step. Below the limit the bound on nested calls is
not met: the deeper the context, the fewer calls are needed. -/
theorem reaches_appendPartial
    (standard : machine.style.helpers = .builtin) (documents : Partials.Documents machine.table)
    {nesting : Nat} (name : String) (scope : Option Path) {context : Context}
    (room : machine.limit ≤ nesting + context.depth) (tasks : Tasks) (out : String) :
    machine.Reaches (machine.enter name scope context tasks out)
      (.after tasks
        (machine.style.appendPartial (machine.host nesting) name scope context out)) := by
  induction nesting generalizing name scope context tasks out with
  | zero =>
      have deep : machine.limit ≤ context.depth := by omega
      rw [enter_of_limit_le name scope tasks out deep,
        Style.appendPartial_of_limit_le _ _ name scope out deep]
      exact .refl _
  | succ nesting inductionHypothesis =>
      rcases Nat.lt_or_ge context.depth machine.limit with shallow | deep
      · rw [Style.appendPartial_of_lt _ _ name scope out shallow, host]
        dsimp only
        cases found : machine.table.get? name with
        | none =>
            rw [enter_of_free name scope tasks out shallow found,
              Partials.call_of_free _ _ _ _ found]
            exact .refl _
        | some body =>
            obtain ⟨document, rfl⟩ := documents name body found
            rw [enter_of_document name scope tasks out shallow found,
              Partials.call_succ _ _ _ _ found]
            -- The text of the partial is written apart, and put behind `out` when it ends.
            have level := depth_forPartial context
              (Style.partialScope machine.metadata context scope)
            have inner := reaches_renderNodes standard rfl
              (fun name scope context tasks out same =>
                inductionHypothesis name scope (by omega) tasks out)
              document.nodes level (.resume out :: tasks) ""
            exact inner.bind fun text => .of_step (.refl _)
      · rw [enter_of_limit_le name scope tasks out deep,
          Style.appendPartial_of_limit_le _ _ name scope out deep]
        exact .refl _

private theorem reaches_ended
    (standard : machine.style.helpers = .builtin) (documents : Partials.Documents machine.table)
    {nesting : Nat} (room : machine.limit ≤ nesting) (document : Document) (model : Value) :
    machine.Reaches (start document model)
      (.ended (machine.style.render (machine.host nesting) document (.ofModel model))) := by
  have level : (Context.ofModel model).depth = 0 := rfl
  have reaches := reaches_renderNodes standard rfl
    (fun name scope context tasks out _ =>
      reaches_appendPartial standard documents name scope (Nat.le_add_right_of_le room) tasks out)
    document.nodes level [] ""
  apply reaches.trans
  rw [Style.render]
  cases machine.style.renderNodes (machine.host nesting) document.nodes (.ofModel model) "" with
  | error error => exact .refl _
  | ok text => exact .of_step (.refl _)

/-- How the rendering of a document goes that ends with some outcome, whatever bound is set on
nested calls. A context counts the partials that are nested around it, never more than the
limit; a partial called at the limit ends the rendering, whatever the table has under its name,
and nothing else exceeds the limit. -/
structure Terminates (machine : Machine) (document : Document) (model : Value)
    (outcome : Outcome) : Prop where
  ends : ∃ count, machine.run count (start document model) = .ended outcome
  unbounded : ∀ nesting, machine.limit ≤ nesting →
    machine.style.render (machine.host nesting) document (.ofModel model) = outcome
  depth : ∀ count above passage below out,
    machine.run count (start document model) =
        .running (above ++ .passage passage :: below) out →
      passage.context.depth = Tasks.nested below
  within : ∀ count tasks out, machine.run count (start document model) = .running tasks out →
    Tasks.nested tasks ≤ machine.limit
  calls : ∀ (host other : Host) nodes context out, host.metadata = other.metadata →
    (∀ name (inner : Context), inner.depth = context.depth + 1 → inner.depth ≤ machine.limit →
      host.callPartial name inner = other.callPartial name inner) →
    machine.style.renderNodes host nodes context out =
      machine.style.renderNodes other nodes context out
  exceeded : ∀ name bound, outcome = .error (.partialDepthExceeded name bound) →
    bound = machine.limit ∧
      ∃ count scope trim span rest context tasks out,
        machine.run count (start document model) =
          .running (.passage ⟨.partialTag name scope trim span :: rest, context⟩ :: tasks) out ∧
        Tasks.nested tasks = machine.limit
  refused : ∀ count name scope trim span rest context tasks out,
    machine.run count (start document model) =
        .running (.passage ⟨.partialTag name scope trim span :: rest, context⟩ :: tasks) out →
      Tasks.nested tasks = machine.limit →
        machine.run (count + 1) (start document model) =
          .ended (.error (.partialDepthExceeded name machine.limit))

/-- Renderings end, also where partials call each other in a circle. -/
theorem render_terminates
    (machine : Machine) (standard : machine.style.helpers = .builtin)
    (documents : Partials.Documents machine.table) (document : Document) (model : Value) :
    machine.Terminates document model
      (machine.style.render
        (Partials.host machine.style.render machine.metadata machine.table machine.limit)
        document (.ofModel model)) := by
  have enough : machine.limit ≤ Partials.nestingBound machine.table machine.limit := by
    unfold Partials.nestingBound
    omega
  obtain ⟨count, ended⟩ := reaches_ended standard documents enough document model
  have counts count := machine.exact_run count (machine.exact_start document model)
  constructor
  · exact ⟨count, ended⟩
  · intro nesting room
    obtain ⟨other, endedToo⟩ := reaches_ended standard documents room document model
    exact ended_unique endedToo ended
  · intro count above passage below out here
    have counts := counts count
    rw [here] at counts
    exact Tasks.Exact.depth_eq counts
  · intro count tasks out here
    have counts := counts count
    rw [here] at counts
    exact Tasks.Exact.nested_le counts
  · intro host other nodes context out metadata calls
    exact Style.renderNodes_congr standard metadata calls nodes out
  · intro name bound exceeds
    apply exists_partialTag_of_exceeded machine
    rw [← exceeds]
    exact ended
  · intro count name scope trim span rest context tasks out here full
    have counts := counts count
    rw [here] at counts
    have level : context.depth = Tasks.nested tasks := counts.1
    rw [run_succ, here]
    exact enter_of_limit_le name scope _ out (by omega)

theorem render_terminates_circle :
    let call : Node := .partialTag "circle" none default default
    let circle : PartialBody := .document ⟨[.text "o" default, call]⟩
    let table := (Registry.empty.insertIfNew "circle" circle).2.2
    let machine : Machine := ⟨⟨⟨true, 2⟩, .builtin⟩, .standard, table⟩
    Partials.Documents table ∧
      machine.Terminates ⟨[call]⟩ .null (.error (.partialDepthExceeded "circle" 2)) := by
  intro call circle table machine
  have documents : Partials.Documents table := by
    intro name body found
    rw [Registry.get?_insertIfNew, Registry.get?_empty] at found
    split at found
    · exact ⟨_, (Option.some.inj found).symm⟩
    · exact nomatch found
  have exceeds : machine.style.render
      (Partials.host machine.style.render machine.metadata machine.table machine.limit)
      ⟨[call]⟩ (.ofModel .null) = .error (.partialDepthExceeded "circle" 2) := by
    rfl
  have terminates := render_terminates machine rfl documents ⟨[call]⟩ .null
  rw [exceeds] at terminates
  exact ⟨documents, terminates⟩

end Machine

end Stencil
