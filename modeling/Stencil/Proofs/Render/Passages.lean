import Stencil.Render.Renderer

/-!
What blocks render. A standard helper renders sections of its block one after the other, each
in a context of its own: that of the block, or one of a value within it. Which sections and
which values these are depends on the argument of the block only. So a block is a list of
passages, each of which is a list of nodes and a context.
-/

namespace Stencil

/-- Nodes to render, and the context to render them in. -/
structure Passage where
  nodes : List Node
  context : Context

/-! ## Plans -/

/-- A turn of a helper: a section of its block, and the context to render it in. -/
structure Turn where
  main : Bool
  context : Context

def Turn.passage (body : List Node) (inverse : Option (List Node)) (turn : Turn) : Passage :=
  ⟨if turn.main then body else inverse.getD [], turn.context⟩

/-- The turns of a helper, told from the account of values, the context of the block and its
argument. -/
abbrev Plan := Metadata → Context → Option Value → List Turn

namespace Plan

def ifTrue : Plan := fun metadata context argument =>
  [⟨argument.any metadata.isTruthy, context⟩]

def unlessTrue : Plan := fun metadata context argument =>
  [⟨!argument.any metadata.isTruthy, context⟩]

def within : Plan := fun metadata context argument =>
  match argument with
  | some value =>
      if metadata.isTruthy value then [⟨true, context.child value⟩] else [⟨false, context⟩]
  | none => [⟨false, context⟩]

def forEach : Plan := fun _ context argument =>
  match argument with
  | some (.array (item :: items)) =>
      (Helper.itemContexts context (item :: items)).map (Turn.mk true)
  | some (.object (member :: members)) =>
      (Helper.memberContexts context (member :: members)).map (Turn.mk true)
  | _ => [⟨false, context⟩]

def builtin? (name : String) : Option Plan :=
  if name = "with" then some within
  else if name = "each" then some forEach
  else if name = "unless" then some unlessTrue
  else if name = "if" then some ifTrue
  else none

end Plan

def HelperCall.take (call : HelperCall) (out : String) (turn : Turn) : Outcome :=
  if turn.main then call.body turn.context out else call.inverse turn.context out

namespace Helper

/-- Whether a helper takes the turns of a plan. -/
def Follows (helper : Helper) (plan : Plan) : Prop :=
  ∀ call out, helper.render call out =
    (plan call.metadata call.context call.argument).foldlM call.take out

private theorem foldlM_singleton (call : HelperCall) (turn : Turn) (out : String) :
    [turn].foldlM call.take out = call.take out turn := by
  rw [List.foldlM_cons]
  cases call.take out turn <;> rfl

private theorem eachIn_eq (call : HelperCall) (contexts : List Context) (out : String) :
    call.eachIn contexts out = (contexts.map (Turn.mk true)).foldlM call.take out := by
  rw [List.foldlM_map]
  rfl

private theorem ifTrue_follows : ifTrue.Follows .ifTrue := by
  intro call out
  rw [Plan.ifTrue, foldlM_singleton]
  rfl

private theorem unlessTrue_follows : unlessTrue.Follows .unlessTrue := by
  intro call out
  rw [Plan.unlessTrue, foldlM_singleton]
  rfl

private theorem within_follows : within.Follows .within := by
  rintro ⟨name, context, metadata, callPartial, argument, hasInverse, body, inverse⟩ out
  unfold within Plan.within
  dsimp only
  cases argument with
  | none =>
      dsimp only
      rw [foldlM_singleton]
      rfl
  | some value =>
      dsimp only
      by_cases truthy : metadata.isTruthy value = true
      · rw [if_pos truthy, if_pos truthy, foldlM_singleton]
        rfl
      · rw [if_neg truthy, if_neg truthy, foldlM_singleton]
        rfl

private theorem forEach_follows : forEach.Follows .forEach := by
  rintro ⟨name, context, metadata, callPartial, argument, hasInverse, body, inverse⟩ out
  unfold forEach Plan.forEach
  dsimp only
  match argument with
  | some (.array (_ :: _)) => exact eachIn_eq _ _ out
  | some (.object (_ :: _)) => exact eachIn_eq _ _ out
  | none | some .null | some (.bool _) | some (.number _) | some (.string _)
  | some (.array []) | some (.object []) =>
      dsimp only
      rw [foldlM_singleton]
      rfl

end Helper

/-- The standard helpers take the turns of their plans. -/
theorem builtin_follows (name : String) :
    Option.Rel Helper.Follows (HelperTable.builtin.get? name) (Plan.builtin? name) := by
  unfold HelperTable.builtin Plan.builtin?
  simp only [HelperTable.get?_register, HelperTable.get?_empty, eq_comm (b := name)]
  by_cases isWith : name = "with"
  · rw [if_pos isWith, if_pos isWith]
    exact .some Helper.within_follows
  rw [if_neg isWith, if_neg isWith]
  by_cases isEach : name = "each"
  · rw [if_pos isEach, if_pos isEach]
    exact .some Helper.forEach_follows
  rw [if_neg isEach, if_neg isEach]
  by_cases isUnless : name = "unless"
  · rw [if_pos isUnless, if_pos isUnless]
    exact .some Helper.unlessTrue_follows
  rw [if_neg isUnless, if_neg isUnless]
  by_cases isIf : name = "if"
  · rw [if_pos isIf, if_pos isIf]
    exact .some Helper.ifTrue_follows
  rw [if_neg isIf, if_neg isIf]
  exact .none

/-! ## Entries -/

/-- A turn as the context of its block tells it: a section in that context itself, or the body
in a value within it, with the data of a round or without. -/
inductive Entry where
  | stay (main : Bool)
  | enter (value : Value)
  | round (value : Value) (data : Iteration)

namespace Entry

def turn (context : Context) : Entry → Turn
  | .stay main => ⟨main, context⟩
  | .enter value => ⟨true, context.child value⟩
  | .round value data => ⟨true, (context.child value).withData data⟩

inductive Of : String → Entry → Prop
  | inverse (helper : String) : Of helper (.stay false)
  | stay {helper : String} (main : Bool) :
      helper ≠ "with" → helper ≠ "each" → Of helper (.stay main)
  | enter (value : Value) : Of "with" (.enter value)
  | round (value : Value) (data : Iteration) : Of "each" (.round value data)

/-- Whether some turns are entries of the helper of a name, the same ones in each context. -/
def Tell (helper : String) (turns : Context → List Turn) : Prop :=
  ∃ entries : List Entry, (∀ entry ∈ entries, entry.Of helper) ∧
    ∀ context, turns context = entries.map (turn context)

private theorem tell_singleton
    {helper : String} {entry : Entry} (possible : entry.Of helper) {turns : Context → List Turn}
    (turns_eq : ∀ context, turns context = [entry.turn context]) : Tell helper turns :=
  ⟨[entry], List.forall_mem_singleton.mpr possible, turns_eq⟩

private theorem tell_rounds
    {α : Type} (parts : List α) (value : α → Value) (data : Nat → α → Iteration) :
    Tell "each" fun context =>
      (parts.mapIdx fun index part =>
        (context.child (value part)).withData (data index part)).map (Turn.mk true) := by
  refine ⟨parts.mapIdx fun index part => .round (value part) (data index part), ?_, ?_⟩
  · intro entry member
    obtain ⟨index, _, rfl⟩ := List.mem_mapIdx.mp member
    exact .round _ _
  · intro context
    dsimp only
    rw [List.mapIdx_eq_zipIdx_map, List.mapIdx_eq_zipIdx_map, List.map_map, List.map_map]
    rfl

end Entry

namespace Plan

/-- Whether a plan is told by entries of the helper of a name, which the argument decides and
the context does not. -/
def Enters (helper : String) (plan : Plan) : Prop :=
  ∀ metadata argument, Entry.Tell helper fun context => plan metadata context argument

private theorem within_enters : within.Enters "with" := by
  intro metadata argument
  cases argument with
  | none => exact Entry.tell_singleton (.inverse "with") fun _ => rfl
  | some value =>
      by_cases truthy : metadata.isTruthy value = true
      · exact Entry.tell_singleton (.enter value) fun _ => if_pos truthy
      · exact Entry.tell_singleton (.inverse "with") fun _ => if_neg truthy

private theorem forEach_enters : forEach.Enters "each" := by
  intro metadata argument
  match argument with
  | some (.array (item :: items)) =>
      exact Entry.tell_rounds (item :: items) id
        fun index _ => .round index (item :: items).length none
  | some (.object (member :: members)) =>
      exact Entry.tell_rounds (member :: members) Prod.snd
        fun index inner => .round index (member :: members).length (some inner.1)
  | none | some .null | some (.bool _) | some (.number _) | some (.string _)
  | some (.array []) | some (.object []) =>
      exact Entry.tell_singleton (.inverse "each") fun _ => rfl

theorem builtin?_enters {helper : String} {plan : Plan} (found : builtin? helper = some plan) :
    plan.Enters helper := by
  unfold builtin? at found
  split at found
  · rename_i isWith
    rw [← Option.some.inj found, isWith]
    exact within_enters
  rename_i noWith
  split at found
  · rename_i isEach
    rw [← Option.some.inj found, isEach]
    exact forEach_enters
  rename_i noEach
  -- The other helpers render either section in the context of the block.
  split at found
  · rw [← Option.some.inj found]
    exact fun _ _ => Entry.tell_singleton (.stay _ noWith noEach) fun _ => rfl
  split at found
  · rw [← Option.some.inj found]
    exact fun _ _ => Entry.tell_singleton (.stay _ noWith noEach) fun _ => rfl
  · exact nomatch found

end Plan

def Context.atDepth (context : Context) (depth : Nat) : Context :=
  ⟨context.scope, depth⟩

theorem depth_forPartial (context : Context) (value : Option Value) :
    (context.forPartial value).depth = context.depth + 1 := by
  cases value <;> rfl

theorem forPartial_atDepth (context : Context) (depth : Nat) (value : Option Value) :
    (context.atDepth depth).forPartial value =
      (context.forPartial value).atDepth (depth + 1) := by
  cases value <;> rfl

def Turn.atDepth (depth : Nat) (turn : Turn) : Turn :=
  ⟨turn.main, turn.context.atDepth depth⟩

private theorem Entry.turn_atDepth (context : Context) (depth : Nat) (entry : Entry) :
    entry.turn (context.atDepth depth) = (entry.turn context).atDepth depth := by
  cases entry <;> rfl

/-- Whether a plan takes the depth of its turns from the context, and nothing else. -/
def Plan.Level (plan : Plan) : Prop :=
  ∀ metadata context argument depth,
    plan metadata (context.atDepth depth) argument =
      (plan metadata context argument).map (Turn.atDepth depth)

private theorem Plan.builtin?_level
    {name : String} {plan : Plan} (found : builtin? name = some plan) :
    plan.Level := by
  intro metadata context argument depth
  obtain ⟨entries, _, turns⟩ := builtin?_enters found metadata argument
  dsimp only at turns
  rw [turns, turns, List.map_map]
  exact List.map_congr_left fun entry _ => entry.turn_atDepth context depth

/-! ## Blocks -/

/-- The passages of a block with a standard helper, none for another block. -/
def passages? (metadata : Metadata) (context : Context) (tags : BlockTags) (body : List Node)
    (inverse : Option (List Node)) : Option (List Passage) :=
  (Plan.builtin? tags.helper).map fun plan =>
    (plan metadata context (context.lookup metadata tags.argument)).map
      (Turn.passage body inverse)

def Passage.atDepth (depth : Nat) (passage : Passage) : Passage :=
  ⟨passage.nodes, passage.context.atDepth depth⟩

theorem passages?_atDepth
    (metadata : Metadata) (context : Context) (depth : Nat) (tags : BlockTags)
    (body : List Node) (inverse : Option (List Node)) :
    passages? metadata (context.atDepth depth) tags body inverse =
      (passages? metadata context tags body inverse).map
        (List.map (Passage.atDepth depth)) := by
  rw [passages?, passages?]
  cases known : Plan.builtin? tags.helper with
  | none => rfl
  | some plan =>
      rw [Option.map_some, Option.map_some, Option.map_some,
        Plan.builtin?_level known metadata context _ depth, List.map_map, List.map_map]
      rfl

theorem depth_of_mem_passages?
    {metadata : Metadata} {context : Context} {tags : BlockTags} {body : List Node}
    {inverse : Option (List Node)} {passages : List Passage} {passage : Passage}
    (found : passages? metadata context tags body inverse = some passages)
    (member : passage ∈ passages) :
    passage.context.depth = context.depth := by
  have same := passages?_atDepth metadata context context.depth tags body inverse
  rw [show context.atDepth context.depth = context from rfl, found, Option.map_some] at same
  rw [Option.some.inj same] at member
  obtain ⟨inner, _, rfl⟩ := List.mem_map.mp member
  rfl

theorem nodes_of_mem_passages?
    {metadata : Metadata} {context : Context} {tags : BlockTags} {body : List Node}
    {inverse : Option (List Node)} {passages : List Passage} {passage : Passage}
    (found : passages? metadata context tags body inverse = some passages)
    (member : passage ∈ passages) :
    passage.nodes = body ∨ passage.nodes = inverse.getD [] := by
  obtain ⟨plan, known, rfl⟩ := Option.map_eq_some_iff.mp found
  obtain ⟨turn, turnMember, rfl⟩ := List.mem_map.mp member
  rw [Turn.passage]
  split
  · exact .inl rfl
  · exact .inr rfl

namespace Style

variable (style : Style) (host : Host)

def renderPassage (out : String) (passage : Passage) : Outcome :=
  style.renderNodes host passage.nodes passage.context out

theorem renderNodes_nil (context : Context) (out : String) :
    style.renderNodes host [] context out = .ok out := by
  rw [renderNodes]

theorem renderNodes_cons (node : Node) (rest : List Node) (context : Context) (out : String) :
    style.renderNodes host (node :: rest) context out =
      (style.renderNode host node context out).bind (style.renderNodes host rest context) := by
  rw [renderNodes]
  dsimp only
  cases style.renderNode host node context out <;> rfl

theorem renderInverse_eq (inverse : Option (List Node)) (context : Context) (out : String) :
    style.renderInverse host inverse context out =
      style.renderNodes host (inverse.getD []) context out := by
  cases inverse with
  | none => rw [renderInverse, Option.getD_none, renderNodes]
  | some nodes => rw [renderInverse, Option.getD_some]

theorem renderNode_block
    (standard : style.helpers = .builtin) (tags : BlockTags) (body : List Node)
    (inverse : Option (List Node)) (context : Context) (out : String) :
    style.renderNode host (.block tags body inverse) context out =
      match passages? host.metadata context tags body inverse with
      | none => .error (.unknownHelper tags.helper)
      | some passages => passages.foldlM (style.renderPassage host) out := by
  rw [renderNode, passages?]
  dsimp only
  rw [standard]
  have follows := builtin_follows tags.helper
  generalize HelperTable.builtin.get? tags.helper = helper at follows ⊢
  generalize Plan.builtin? tags.helper = plan at follows ⊢
  cases follows with
  | none => rfl
  | some follows =>
      rw [Option.map_some]
      dsimp only
      rw [follows, List.foldlM_map]
      congr
      funext out turn
      rw [HelperCall.take, renderPassage, Turn.passage]
      dsimp only
      split
      · rfl
      · exact style.renderInverse_eq host inverse turn.context out

/-- A block is rendered turn by turn, each in one of its sections. -/
theorem renderNode_block_turns
    (standard : style.helpers = .builtin) (tags : BlockTags) (body : List Node)
    (inverse : Option (List Node)) (context : Context) (out : String) :
    style.renderNode host (.block tags body inverse) context out =
      match Plan.builtin? tags.helper with
      | none => .error (.unknownHelper tags.helper)
      | some plan =>
          (plan host.metadata context (context.lookup host.metadata tags.argument)).foldlM
            (fun out turn =>
              style.renderNodes host (if turn.main then body else inverse.getD []) turn.context
                out)
            out := by
  rw [style.renderNode_block host standard, passages?]
  cases Plan.builtin? tags.helper with
  | none => rfl
  | some plan =>
      rw [Option.map_some]
      dsimp only
      rw [List.foldlM_map]
      rfl

theorem renderNodes_text
    (content : String) (span : Span) (rest : List Node) (context : Context) (out : String) :
    style.renderNodes host (.text content span :: rest) context out =
      style.renderNodes host rest context (out ++ content) := by
  rw [renderNodes_cons, renderNode]
  rfl

theorem renderNodes_comment
    (content : String) (trim : Trim) (span : Span) (rest : List Node) (context : Context)
    (out : String) :
    style.renderNodes host (.comment content trim span :: rest) context out =
      style.renderNodes host rest context out := by
  rw [renderNodes_cons, renderNode]
  rfl

theorem renderNodes_expression
    (path : Path) (escaped : Bool) (trim : Trim) (span : Span) (rest : List Node)
    (context : Context) (out : String) :
    style.renderNodes host (.expression path escaped trim span :: rest) context out =
      style.renderNodes host rest context
        (style.appendValue host.metadata path escaped context out) := by
  rw [renderNodes_cons, renderNode]
  rfl

theorem renderNodes_partialTag
    (name : String) (scope : Option Path) (trim : Trim) (span : Span) (rest : List Node)
    (context : Context) (out : String) :
    style.renderNodes host (.partialTag name scope trim span :: rest) context out =
      (style.appendPartial host name scope context out).bind
        (style.renderNodes host rest context) := by
  rw [renderNodes_cons, renderNode]

theorem appendPartial_of_limit_le
    (name : String) (scope : Option Path) {context : Context} (out : String)
    (deep : style.options.maxPartialDepth ≤ context.depth) :
    style.appendPartial host name scope context out =
      .error (.partialDepthExceeded name style.options.maxPartialDepth) := by
  rw [appendPartial, if_pos deep]

theorem appendPartial_of_lt
    (name : String) (scope : Option Path) {context : Context} (out : String)
    (shallow : context.depth < style.options.maxPartialDepth) :
    style.appendPartial host name scope context out =
      (host.callPartial name
        (context.forPartial (partialScope host.metadata context scope))).bind
          fun text => .ok (out ++ text) := by
  rw [appendPartial, if_neg (Nat.not_le.mpr shallow)]
  cases host.callPartial name
    (context.forPartial (partialScope host.metadata context scope)) <;> rfl

end Style

end Stencil
