import Stencil.Context

/-!
Contexts as stacks of frames. However a context was reached, it shows what a stack shows on
which each value is put as a frame of its own: a partial without a value puts no frame on the
stack, data go to the frame on top, and paths climb by taking frames away.
-/

namespace Stencil

/-- A value, and the data of the iteration that it is an item of. -/
structure Frame where
  value : Value
  data : Option Iteration

/-- Frames from the innermost outwards, at least one of them, and the number of partials that
are being rendered. -/
structure Stack where
  top : Frame
  below : List Frame
  count : Nat

/-- The ways from one context to another. -/
inductive Move where
  | child (value : Value)
  | forPartial (value : Option Value)
  | withData (data : Iteration)

def Iteration.named? (data : Iteration) : String → Option Value
  | "index" => some (.ofNat data.index)
  | "first" => some (.bool data.first)
  | "last" => some (.bool data.last)
  | "key" => data.key.map .string
  | _ => none

theorem Iteration.named?_eq (data : Iteration) (name : String) :
    data.named? name =
      if name = "index" then some (.ofNat data.index)
      else if name = "first" then some (.bool data.first)
      else if name = "last" then some (.bool data.last)
      else if name = "key" then data.key.map .string
      else none := by
  unfold named?
  split
  · rfl
  · rfl
  · rfl
  · rfl
  · rename_i noIndex noFirst noLast noKey
    rw [if_neg noIndex, if_neg noFirst, if_neg noLast, if_neg noKey]

/-- Follows names from a value as far as there are such members. -/
def Metadata.reach? (metadata : Metadata) : Value → List String → Option Value
  | value, [] => some value
  | value, name :: names =>
      match metadata.member value name with
      | some next => metadata.reach? next names
      | none => none

namespace Stack

def ofModel (model : Value) : Stack :=
  ⟨⟨model, none⟩, [], 0⟩

def push (stack : Stack) (frame : Frame) : Stack :=
  ⟨frame, stack.top :: stack.below, stack.count⟩

def go (stack : Stack) : Move → Stack
  | .child value => stack.push ⟨value, none⟩
  | .forPartial (some value) => { stack.push ⟨value, none⟩ with count := stack.count + 1 }
  | .forPartial none => { stack with count := stack.count + 1 }
  | .withData data => { stack with top := ⟨stack.top.value, some data⟩ }

def frames (stack : Stack) : List Frame :=
  stack.top :: stack.below

def data? (frames : List Frame) : Option Iteration :=
  frames.findSome? Frame.data

/-- The value that a path starts at, told from the frames that are left when it has climbed. -/
def start? (model : Value) (frame : Frame) (below : List Frame) : Path.Root → Option Value
  | .context => some frame.value
  | .data name =>
      if name = "root" then some model
      else (data? (frame :: below)).bind fun data => data.named? name

def lookup (metadata : Metadata) (model : Value) (stack : Stack) (path : Path) : Option Value :=
  match stack.frames.drop path.parents with
  | [] => none
  | frame :: below =>
      (start? model frame below path.root).bind fun value => metadata.reach? value path.segments

end Stack

namespace Context

def go (context : Context) : Move → Context
  | .child value => context.child value
  | .forPartial value => context.forPartial value
  | .withData data => context.withData data

end Context

namespace Scope

def frames : Scope → List Frame
  | .root model data => [⟨model, data⟩]
  | .nested value data outer => ⟨value, data⟩ :: outer.frames

private theorem value_of_frames_eq
    {scope : Scope} {frame : Frame} {below : List Frame}
    (split : scope.frames = frame :: below) : scope.value = frame.value := by
  cases scope with
  | root model data => exact congrArg Frame.value (List.cons.inj split).1
  | nested value data outer => exact congrArg Frame.value (List.cons.inj split).1

private theorem isSome_outer?_iff (scope : Scope) :
    scope.outer?.isSome = true ↔ 2 ≤ scope.frames.length := by
  cases scope with
  | root model data => simp [outer?, frames]
  | nested value data outer => cases outer <;> simp [outer?, frames]

theorem data?_eq (scope : Scope) : scope.data? = Stack.data? scope.frames := by
  induction scope with
  | root model data => cases data <;> rfl
  | nested value data outer inductionHypothesis =>
      cases data with
      | some data => rfl
      | none => exact inductionHypothesis

private theorem frames_withData
    {scope : Scope} {frame : Frame} {below : List Frame} (data : Iteration)
    (split : scope.frames = frame :: below) :
    (scope.withData data).frames = ⟨frame.value, some data⟩ :: below := by
  cases scope with
  | root model own =>
      obtain ⟨rfl, rfl⟩ := List.cons.inj split
      rfl
  | nested value own outer =>
      obtain ⟨rfl, rfl⟩ := List.cons.inj split
      rfl

private theorem model_withData (scope : Scope) (data : Iteration) :
    (scope.withData data).model = scope.model := by
  cases scope <;> rfl

/-- Climbing takes frames away, and fails when none is left. -/
theorem climb_spec (levels : Nat) (scope : Scope) :
    match scope.climb levels with
    | none => scope.frames.drop levels = []
    | some outer => outer.frames = scope.frames.drop levels ∧ outer.model = scope.model := by
  induction levels generalizing scope with
  | zero => exact ⟨rfl, rfl⟩
  | succ levels inductionHypothesis =>
      cases scope with
      | root model data => exact List.drop_nil
      | nested value data outer => exact inductionHypothesis outer

theorem start?_eq
    {scope : Scope} {frame : Frame} {below : List Frame}
    (split : scope.frames = frame :: below) (root : Path.Root) :
    scope.start? root = Stack.start? scope.model frame below root := by
  cases root with
  | context => exact congrArg some (value_of_frames_eq split)
  | data name =>
      rw [start?, Stack.start?, dataValue?, data?_eq, split]
      cases Stack.data? (frame :: below) with
      | none => rfl
      | some data =>
          rw [Option.bind_some, Iteration.named?_eq]

end Scope

private theorem Context.follow_eq (metadata : Metadata) (value : Value) (names : List String) :
    Context.follow metadata value names = metadata.reach? value names := by
  induction names generalizing value with
  | nil => rfl
  | cons name names inductionHypothesis =>
      rw [Metadata.reach?, Context.follow, List.foldlM_cons]
      cases metadata.member value name with
      | none => rfl
      | some next => exact inductionHypothesis next

/-- Whether a context stands for a stack of frames above a model. -/
structure Context.Shows (context : Context) (model : Value) (stack : Stack) : Prop where
  frames : context.scope.frames = stack.frames
  model : context.model = model
  depth : context.depth = stack.count

namespace Context.Shows

variable {context : Context} {model : Value} {stack : Stack}

theorem ofModel (model : Value) : (Context.ofModel model).Shows model (.ofModel model) :=
  ⟨rfl, rfl, rfl⟩

theorem push (shows : context.Shows model stack) (value : Value) :
    (context.child value).Shows model (stack.push ⟨value, none⟩) :=
  ⟨congrArg _ shows.frames, shows.model, shows.depth⟩

private theorem go (shows : context.Shows model stack) (move : Move) :
    (context.go move).Shows model (stack.go move) := by
  cases move with
  | child value => exact shows.push value
  | forPartial value =>
      have deeper : context.depth + 1 = stack.count + 1 := congrArg (· + 1) shows.depth
      cases value with
      | none => exact ⟨shows.frames, shows.model, deeper⟩
      | some value => exact ⟨(shows.push value).frames, shows.model, deeper⟩
  | withData data =>
      refine ⟨?_, ?_, shows.depth⟩
      · exact Scope.frames_withData data shows.frames
      · exact (Scope.model_withData context.scope data).trans shows.model

private theorem foldl_go (shows : context.Shows model stack) (moves : List Move) :
    (moves.foldl Context.go context).Shows model (moves.foldl Stack.go stack) := by
  induction moves generalizing context stack with
  | nil => exact shows
  | cons move rest inductionHypothesis => exact inductionHypothesis (shows.go move)

private theorem lookup_eq (shows : context.Shows model stack) (metadata : Metadata) (path : Path) :
    context.lookup metadata path = stack.lookup metadata model path := by
  have climbed := context.scope.climb_spec path.parents
  have root : context.scope.model = model := shows.model
  rw [Context.lookup, Stack.lookup, ← shows.frames]
  cases outer : context.scope.climb path.parents with
  | none =>
      rw [outer] at climbed
      dsimp only at climbed
      rw [climbed]
  | some scope =>
      rw [outer] at climbed
      obtain ⟨frames, same⟩ := climbed
      rw [← frames]
      cases split : scope.frames with
      | nil => cases scope <;> exact nomatch split
      | cons frame below =>
          dsimp only
          rw [Scope.start?_eq split, same, root]
          cases Stack.start? model frame below path.root with
          | none => rfl
          | some value => exact Context.follow_eq metadata value path.segments

end Context.Shows

/-- After any moves a context shows what the stack of its frames shows. -/
theorem Context.after_moves_shows_stack (metadata : Metadata) (model : Value) (moves : List Move) :
    let context := moves.foldl Context.go (.ofModel model)
    let stack := moves.foldl Stack.go (.ofModel model)
    context.depth = stack.count ∧ context.model = model ∧
      context.value = stack.top.value ∧ context.data? = Stack.data? stack.frames ∧
      (context.parent?.isSome = true ↔ 2 ≤ stack.frames.length) ∧
      ∀ path, context.lookup metadata path = stack.lookup metadata model path := by
  intro context stack
  have shows : context.Shows model stack := (Shows.ofModel model).foldl_go moves
  refine ⟨shows.depth, shows.model, ?_, ?_, ?_, shows.lookup_eq metadata⟩
  · exact Scope.value_of_frames_eq shows.frames
  · rw [← shows.frames]
    exact context.scope.data?_eq
  · rw [← shows.frames, ← Scope.isSome_outer?_iff, Context.parent?, Option.isSome_map]

end Stencil
