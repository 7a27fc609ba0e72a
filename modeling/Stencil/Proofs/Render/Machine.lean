import Mathlib.Logic.Function.Iterate
import Stencil.Partials
import Stencil.Proofs.Render.Passages

/-!
Rendering in small steps. Where all partials are documents, all that is left of a rendering is a
stack of passages, with a mark below those of each partial that is being rendered. The marks
count the calls of partials that are nested at the moment.
-/

namespace Stencil

/-- Something left to do: a passage to render, or a partial to end, whose text goes behind the
text from before its call. -/
inductive Task where
  | passage (passage : Passage)
  | resume (saved : String)

abbrev Tasks := List Task

inductive Progress where
  | running (tasks : Tasks) (out : String)
  | ended (outcome : Outcome)

namespace Tasks

/-- The number of partials that are being rendered. -/
def nested : Tasks → Nat
  | [] => 0
  | .passage _ :: tasks => nested tasks
  | .resume _ :: tasks => nested tasks + 1

/-- Whether contexts count the partials that are being rendered around them, and no partial
has been called at the limit. -/
def Exact (limit : Nat) : Tasks → Prop
  | [] => True
  | .passage passage :: tasks => passage.context.depth = nested tasks ∧ Exact limit tasks
  | .resume _ :: tasks => nested tasks < limit ∧ Exact limit tasks

private theorem nested_passages (passages : List Passage) (tasks : Tasks) :
    nested (passages.map .passage ++ tasks) = nested tasks := by
  induction passages with
  | nil => rfl
  | cons passage rest inductionHypothesis => exact inductionHypothesis

namespace Exact

variable {limit : Nat} {tasks : Tasks}

theorem nested_le (counts : Exact limit tasks) : nested tasks ≤ limit := by
  induction tasks with
  | nil => exact Nat.zero_le limit
  | cons task rest inductionHypothesis =>
      cases task with
      | passage => exact inductionHypothesis counts.2
      | resume => exact counts.1

theorem depth_eq
    {above below : Tasks} {passage : Passage}
    (counts : Exact limit (above ++ .passage passage :: below)) :
    passage.context.depth = nested below := by
  induction above with
  | nil => exact counts.1
  | cons task rest inductionHypothesis =>
      cases task with
      | passage => exact inductionHypothesis counts.2
      | resume => exact inductionHypothesis counts.2

theorem passages
    (counts : Exact limit tasks) {passages : List Passage}
    (depths : ∀ passage ∈ passages, passage.context.depth = nested tasks) :
    Exact limit (passages.map .passage ++ tasks) := by
  induction passages with
  | nil => exact counts
  | cons passage rest inductionHypothesis =>
      rw [List.forall_mem_cons] at depths
      exact ⟨depths.1.trans (nested_passages rest tasks).symm, inductionHypothesis depths.2⟩

end Exact

end Tasks

def Progress.Exact (limit : Nat) : Progress → Prop
  | .running tasks _ => Tasks.Exact limit tasks
  | .ended _ => True

/-! ## Machines -/

/-- What documents and their partials are rendered with. -/
structure Machine where
  style : Style
  metadata : Metadata
  table : Registry PartialBody

namespace Machine

variable (machine : Machine)

def limit : Nat :=
  machine.style.options.maxPartialDepth

def document? (name : String) : Option Document :=
  match machine.table.get? name with
  | some (.document document) => some document
  | _ => none

def host (nesting : Nat) : Host :=
  ⟨machine.metadata, Partials.call machine.style.render machine.metadata machine.table nesting⟩

/-- Calls a partial: its text is written apart until it ends. -/
def enter (name : String) (scope : Option Path) (context : Context) (tasks : Tasks)
    (out : String) : Progress :=
  if machine.limit ≤ context.depth then
    .ended (.error (.partialDepthExceeded name machine.limit))
  else
    match machine.document? name with
    | none => .ended (.error (.unknownPartial name))
    | some document =>
        let inner := context.forPartial (Style.partialScope machine.metadata context scope)
        .running (.passage ⟨document.nodes, inner⟩ :: .resume out :: tasks) ""

def visit (node : Node) (context : Context) (tasks : Tasks) (out : String) : Progress :=
  match node with
  | .text content _ => .running tasks (out ++ content)
  | .comment _ _ _ => .running tasks out
  | .expression path escaped _ _ =>
      .running tasks (machine.style.appendValue machine.metadata path escaped context out)
  | .block tags body inverse =>
      match passages? machine.metadata context tags body inverse with
      | none => .ended (.error (.unknownHelper tags.helper))
      | some passages => .running (passages.map .passage ++ tasks) out
  | .partialTag name scope _ _ => machine.enter name scope context tasks out

/-- Takes a step; a rendering that has ended stays as it is. -/
def step : Progress → Progress
  | .ended outcome => .ended outcome
  | .running [] out => .ended (.ok out)
  | .running (.resume saved :: tasks) out => .running tasks (saved ++ out)
  | .running (.passage ⟨[], _⟩ :: tasks) out => .running tasks out
  | .running (.passage ⟨node :: rest, context⟩ :: tasks) out =>
      machine.visit node context (.passage ⟨rest, context⟩ :: tasks) out

def run (count : Nat) : Progress → Progress :=
  machine.step^[count]

def start (document : Document) (model : Value) : Progress :=
  .running [.passage ⟨document.nodes, .ofModel model⟩] ""

theorem run_succ (count : Nat) (progress : Progress) :
    machine.run (count + 1) progress = machine.step (machine.run count progress) :=
  Function.iterate_succ_apply' machine.step count progress

theorem run_add (first second : Nat) (progress : Progress) :
    machine.run (first + second) progress = machine.run first (machine.run second progress) :=
  Function.iterate_add_apply machine.step first second progress

private theorem run_ended (count : Nat) (outcome : Outcome) :
    machine.run count (.ended outcome) = .ended outcome :=
  Function.iterate_fixed rfl count

theorem ended_unique
    {machine : Machine} {progress : Progress} {first second : Nat} {outcome other : Outcome}
    (ends : machine.run first progress = .ended outcome)
    (endsToo : machine.run second progress = .ended other) : outcome = other := by
  have later : machine.run (second + first) progress = .ended outcome := by
    rw [run_add, ends, run_ended]
  have laterToo : machine.run (first + second) progress = .ended other := by
    rw [run_add, endsToo, run_ended]
  rw [Nat.add_comm, later] at laterToo
  exact Progress.ended.inj laterToo

section Enter

variable {machine} (name : String) (scope : Option Path) {context : Context} (tasks : Tasks)
  (out : String)

theorem enter_of_limit_le (deep : machine.limit ≤ context.depth) :
    machine.enter name scope context tasks out =
      .ended (.error (.partialDepthExceeded name machine.limit)) := by
  rw [enter, if_pos deep]

theorem enter_of_free
    (shallow : context.depth < machine.limit) (free : machine.table.get? name = none) :
    machine.enter name scope context tasks out = .ended (.error (.unknownPartial name)) := by
  rw [enter, if_neg (Nat.not_le.mpr shallow), document?, free]

theorem enter_of_document
    {document : Document} (shallow : context.depth < machine.limit)
    (found : machine.table.get? name = some (.document document)) :
    machine.enter name scope context tasks out =
      .running
        (.passage ⟨document.nodes,
            context.forPartial (Style.partialScope machine.metadata context scope)⟩ ::
          .resume out :: tasks) "" := by
  rw [enter, if_neg (Nat.not_le.mpr shallow), document?, found]

end Enter

private theorem exact_enter
    (name : String) (scope : Option Path) {context : Context} {tasks : Tasks} (out : String)
    (counts : Tasks.Exact machine.limit tasks) (depth : context.depth = Tasks.nested tasks) :
    (machine.enter name scope context tasks out).Exact machine.limit := by
  unfold enter
  by_cases deep : machine.limit ≤ context.depth
  · rw [if_pos deep]
    trivial
  · rw [if_neg deep]
    cases machine.document? name with
    | none => trivial
    | some document =>
        have below : Tasks.nested tasks < machine.limit := by omega
        have inner := depth_forPartial context
          (Style.partialScope machine.metadata context scope)
        rw [depth] at inner
        exact ⟨inner, below, counts⟩

private theorem exact_visit
    (node : Node) {context : Context} {tasks : Tasks} (out : String)
    (counts : Tasks.Exact machine.limit tasks) (depth : context.depth = Tasks.nested tasks) :
    (machine.visit node context tasks out).Exact machine.limit := by
  cases node with
  | text | comment | expression => exact counts
  | block tags body inverse =>
      rw [visit]
      cases found : passages? machine.metadata context tags body inverse with
      | none => trivial
      | some passages =>
          exact counts.passages fun passage member =>
            (depth_of_mem_passages? found member).trans depth
  | partialTag name scope => exact machine.exact_enter name scope out counts depth

private theorem exact_step {progress : Progress} (counts : progress.Exact machine.limit) :
    (machine.step progress).Exact machine.limit := by
  match progress, counts with
  | .ended _, _ => trivial
  | .running [] _, _ => trivial
  | .running (.resume _ :: _) _, counts => exact counts.2
  | .running (.passage ⟨[], _⟩ :: _) _, counts => exact counts.2
  | .running (.passage ⟨node :: _, _⟩ :: _) out, counts =>
      exact machine.exact_visit node out counts counts.1

theorem exact_run
    (count : Nat) {progress : Progress} (counts : progress.Exact machine.limit) :
    (machine.run count progress).Exact machine.limit := by
  induction count with
  | zero => exact counts
  | succ count inductionHypothesis =>
      rw [run_succ]
      exact machine.exact_step inductionHypothesis

theorem exact_start (document : Document) (model : Value) :
    (start document model).Exact machine.limit :=
  ⟨rfl, trivial⟩

/-! ## The limit -/

/-- Only the tag of a partial at the limit, or past it, ends a rendering there. -/
theorem partialTag_of_step
    {progress : Progress} {name : String} {bound : Nat}
    (runs : ∀ outcome, progress ≠ .ended outcome)
    (exceeds : machine.step progress = .ended (.error (.partialDepthExceeded name bound))) :
    bound = machine.limit ∧
      ∃ scope trim span rest context tasks out, machine.limit ≤ context.depth ∧
        progress =
          .running (.passage ⟨.partialTag name scope trim span :: rest, context⟩ :: tasks) out := by
  match progress, exceeds with
  | .ended outcome, _ => exact absurd rfl (runs outcome)
  | .running [] _, exceeds => exact nomatch exceeds
  | .running (.resume _ :: _) _, exceeds => exact nomatch exceeds
  | .running (.passage ⟨[], _⟩ :: _) _, exceeds => exact nomatch exceeds
  | .running (.passage ⟨node :: rest, context⟩ :: tasks) out, exceeds =>
      rw [step] at exceeds
      cases node with
      | text | comment | expression => exact nomatch exceeds
      | block tags body inverse =>
          rw [visit] at exceeds
          split at exceeds
          · exact nomatch exceeds
          · exact nomatch exceeds
      | partialTag called scope trim span =>
          rw [visit, enter] at exceeds
          by_cases deep : machine.limit ≤ context.depth
          · rw [if_pos deep] at exceeds
            obtain ⟨rfl, rfl⟩ : called = name ∧ machine.limit = bound := by
              injection exceeds with same
              injection same with same
              injection same with named bounded
              exact ⟨named, bounded⟩
            exact ⟨rfl, scope, trim, span, rest, context, tasks, out, deep, rfl⟩
          · rw [if_neg deep] at exceeds
            split at exceeds
            · exact nomatch exceeds
            · exact nomatch exceeds

/-- The limit is exceeded where a partial is called with as many partials nested. -/
theorem exists_partialTag_of_exceeded
    {document : Document} {model : Value} {count : Nat} {name : String} {bound : Nat}
    (exceeds : machine.run count (start document model) =
      .ended (.error (.partialDepthExceeded name bound))) :
    bound = machine.limit ∧
      ∃ before scope trim span rest context tasks out,
        machine.run before (start document model) =
          .running (.passage ⟨.partialTag name scope trim span :: rest, context⟩ :: tasks) out ∧
        Tasks.nested tasks = machine.limit := by
  induction count with
  | zero => exact nomatch exceeds
  | succ count inductionHypothesis =>
      by_cases runs : ∀ outcome, machine.run count (start document model) ≠ .ended outcome
      · rw [run_succ] at exceeds
        obtain ⟨rfl, scope, trim, span, rest, context, tasks, out, deep, here⟩ :=
          partialTag_of_step machine runs exceeds
        have counts := machine.exact_run count (machine.exact_start document model)
        rw [here] at counts
        have level : context.depth = Tasks.nested tasks := counts.1
        have within := Tasks.Exact.nested_le counts.2
        exact ⟨rfl, count, scope, trim, span, rest, context, tasks, out, here, by omega⟩
      · obtain ⟨outcome, ended⟩ := not_forall_not.mp runs
        apply inductionHypothesis
        rw [run_succ, ended] at exceeds
        rw [ended]
        exact exceeds

end Machine

end Stencil
