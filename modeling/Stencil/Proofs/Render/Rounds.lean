import Mathlib.Control.Monad.Basic
import Stencil.Proofs.Context.Frames
import Stencil.Proofs.Render.Buffer

/-!
Rounds of an iteration. A block that iterates gives the texts of its body in one context after
the other: for each item of an array or member of an object a context within that of the block,
with the data of its round. These data stay the same, and the context of the block can be
climbed to, wherever the body leads without another iteration.
-/

namespace Stencil

/-- What an iteration over a value goes through: items, or members with their names. -/
def Value.entries : Value → List (Option String × Value)
  | .array items => items.map fun item => (none, item)
  | .object members => members.map fun member => (some member.1, member.2)
  | _ => []

private theorem Value.ofMembers_ordered {members ordered : List (String × Value)}
    (same : Value.ofMembers members = .object ordered) :
    ordered.Pairwise fun first second => first.1 < second.1 := by
  obtain rfl := Value.object.inj same
  have byName := (Std.TreeMap.ofList members).ordered_keys_toList
  exact byName.imp fun before => compareOfLessAndEq_eq_lt.mp before

/-- The members of an object are gone through in the order of their names. -/
theorem Value.entries_ofMembers (members : List (String × Value)) :
    ∃ ordered : List (String × Value),
      (Value.ofMembers members).entries = ordered.map (fun member => (some member.1, member.2)) ∧
        ordered.Pairwise fun first second => first.1 < second.1 :=
  ⟨_, rfl, Value.ofMembers_ordered rfl⟩

def Context.round (context : Context) (count index : Nat) (entry : Option String × Value) :
    Context :=
  (context.child entry.2).withData (.round index count entry.1)

private theorem mapIdx_round
    {α : Type} (context : Context) (parts : List α) (entry : α → Option String × Value) :
    parts.mapIdx (fun index part => context.round parts.length index (entry part)) =
      (parts.map entry).mapIdx (context.round (parts.map entry).length) := by
  rw [List.mapIdx_eq_zipIdx_map, List.mapIdx_eq_zipIdx_map, List.zipIdx_map, List.map_map,
    List.length_map]
  rfl

/-- The turns of an iteration are rounds over the entries, or without entries the inverse. -/
theorem Plan.forEach_eq (metadata : Metadata) (context : Context) (argument : Option Value) :
    let entries := (argument.map Value.entries).getD []
    forEach metadata context argument =
      if entries.isEmpty then [⟨false, context⟩]
      else (entries.mapIdx (context.round entries.length)).map (Turn.mk true) := by
  match argument with
  | some (.array (item :: items)) =>
      exact congrArg (List.map (Turn.mk true))
        (mapIdx_round context (item :: items) fun item => (none, item))
  | some (.object (member :: members)) =>
      exact congrArg (List.map (Turn.mk true))
        (mapIdx_round context (member :: members) fun member => (some member.1, member.2))
  | none | some .null | some (.bool _) | some (.number _) | some (.string _)
  | some (.array []) | some (.object []) => rfl

/-! ## Texts in a row -/

/-- The texts of some outcomes one after the other, up to the first error. -/
def inSequence : List Outcome → Outcome
  | [] => .ok ""
  | outcome :: rest => outcome.bind fun text => (inSequence rest).map fun later => text ++ later

private theorem foldlM_eq_inSequence
    {α : Type} {items : List α} {take : String → α → Outcome}
    (appends : ∀ item ∈ items, ∀ out,
      take out item = (take "" item).map fun text => out ++ text)
    (out : String) :
    items.foldlM take out =
      (inSequence (items.map (take ""))).map fun text => out ++ text := by
  induction items generalizing out with
  | nil => exact congrArg Except.ok String.append_empty.symm
  | cons item rest inductionHypothesis =>
      rw [List.forall_mem_cons] at appends
      rw [List.foldlM_cons, List.map_cons, inSequence, appends.1]
      cases take "" item with
      | error error => rfl
      | ok text =>
          show rest.foldlM take (out ++ text) = _
          rw [inductionHypothesis appends.2]
          show _ = ((inSequence (rest.map (take ""))).map _).map _
          cases inSequence (rest.map (take "")) with
          | error error => rfl
          | ok later => exact congrArg Except.ok String.append_assoc

/-! ## What a round leads to -/

def Path.raise (path : Path) (levels : Nat) : Path :=
  { path with parents := path.parents + levels }

/-- The number of values that the scope of a context holds. -/
def Context.height (context : Context) : Nat :=
  context.scope.frames.length

/-- The contexts that rendering in a context leads to without an iteration on the way: those of
the sections of other blocks and those of partials. -/
inductive Context.LeadsTo (metadata : Metadata) (start : Context) : Context → Prop
  | here : LeadsTo metadata start start
  | block {context : Context} {helper : String} {plan : Plan} {argument : Option Value}
      {turn : Turn} :
      LeadsTo metadata start context →
      helper ≠ "each" →
      Plan.builtin? helper = some plan →
      turn ∈ plan metadata context argument →
      LeadsTo metadata start turn.context
  | partialTag {context : Context} (scope : Option Value) :
      LeadsTo metadata start context →
      LeadsTo metadata start (context.forPartial scope)

private theorem Scope.climb_add (first second : Nat) (scope : Scope) :
    scope.climb (first + second) = (scope.climb first).bind (Scope.climb second) := by
  induction first generalizing scope with
  | zero => rw [Nat.zero_add]; rfl
  | succ first inductionHypothesis =>
      rw [Nat.succ_add]
      cases scope with
      | root model data => rfl
      | nested value data outer => exact inductionHypothesis outer

namespace Context

variable {metadata : Metadata} {start context : Context}

/-- Whether a context lies in another one, with nothing but values put between them. -/
structure Within (start context : Context) (levels : Nat) : Prop where
  climb : context.scope.climb levels = some start.scope
  height : context.height = start.height + levels
  data : context.data? = start.data?

theorem Within.child {levels : Nat} (within : Within start context levels) (value : Value) :
    Within start (context.child value) (levels + 1) :=
  ⟨within.climb, congrArg (· + 1) within.height, within.data⟩

/-- The standard helpers but `each` render in the context of the block or in a value in it. -/
theorem turn_context_cases
    {helper : String} {plan : Plan} {argument : Option Value} {turn : Turn}
    (noEach : helper ≠ "each") (found : Plan.builtin? helper = some plan)
    (member : turn ∈ plan metadata context argument) :
    turn.context = context ∨ ∃ value, turn.context = context.child value := by
  obtain ⟨entries, possible, turns⟩ := Plan.builtin?_enters found metadata argument
  dsimp only at turns
  rw [turns] at member
  obtain ⟨entry, inside, rfl⟩ := List.mem_map.mp member
  cases possible entry inside with
  | inverse => exact .inl rfl
  | stay => exact .inl rfl
  | enter value => exact .inr ⟨value, rfl⟩
  | round => exact absurd rfl noEach

theorem LeadsTo.exists_within (leads : LeadsTo metadata start context) :
    ∃ levels, Within start context levels := by
  induction leads with
  | here => exact ⟨0, rfl, rfl, rfl⟩
  | block _ noEach found member inductionHypothesis =>
      obtain ⟨levels, within⟩ := inductionHypothesis
      rcases turn_context_cases noEach found member with same | ⟨value, inner⟩
      · rw [same]
        exact ⟨levels, within⟩
      · rw [inner]
        exact ⟨levels + 1, within.child value⟩
  -- A partial is rendered in the same scope or, given a context, in one value more.
  | partialTag scope _ inductionHypothesis =>
      obtain ⟨levels, within⟩ := inductionHypothesis
      cases scope with
      | none => exact ⟨levels, within.climb, within.height, within.data⟩
      | some value =>
          have inner := within.child value
          exact ⟨levels + 1, inner.climb, inner.height, inner.data⟩

private theorem lookup_raise
    {outer : Context} {levels : Nat} (climbs : context.scope.climb levels = some outer.scope)
    (metadata : Metadata) (path : Path) :
    context.lookup metadata (path.raise levels) = outer.lookup metadata path := by
  rw [lookup, lookup, Path.raise, Nat.add_comm, Scope.climb_add, climbs, Option.bind_some]

private theorem lookup_data
    {data : Iteration} (own : context.data? = some data) (metadata : Metadata) {name : String}
    (noRoot : name ≠ "root") :
    context.lookup metadata ⟨0, .data name, []⟩ = data.named? name := by
  have named : context.scope.start? (.data name) = data.named? name := by
    rw [Scope.start?, Scope.dataValue?, if_neg noRoot,
      show context.scope.data? = some data from own, Iteration.named?_eq]
  rw [lookup, show context.scope.climb 0 = some context.scope from rfl]
  dsimp only
  rw [named]
  cases data.named? name <;> rfl

/-- Whether a context shows the data of a round and, further out, what is around the round. -/
structure ShowsRound (metadata : Metadata) (context outer : Context) (count index : Nat)
    (key : Option String) : Prop where
  place : context.lookup metadata ⟨0, .data "index", []⟩ = some (.ofNat index)
  first : context.lookup metadata ⟨0, .data "first", []⟩ = some (.bool (decide (index = 0)))
  last : context.lookup metadata ⟨0, .data "last", []⟩ =
    some (.bool (decide (index + 1 = count)))
  name : context.lookup metadata ⟨0, .data "key", []⟩ = key.map .string
  around : ∀ path, context.lookup metadata (path.raise (context.height - outer.height)) =
    outer.lookup metadata path

private theorem round_within
    (context : Context) (count index : Nat) (entry : Option String × Value) :
    (context.round count index entry).scope.climb 1 = some context.scope ∧
      (context.round count index entry).height = context.height + 1 ∧
      (context.round count index entry).data? = some (.round index count entry.1) :=
  ⟨rfl, rfl, rfl⟩

/-- Wherever a round leads without another iteration, its data are shown. -/
theorem LeadsTo.showsRound
    {outer : Context} {count index : Nat} {entry : Option String × Value} (inside : index < count)
    (leads : LeadsTo metadata (outer.round count index entry) context) :
    ShowsRound metadata context outer count index entry.1 := by
  obtain ⟨levels, within⟩ := leads.exists_within
  obtain ⟨climbs, height, data⟩ := round_within outer count index entry
  have own : context.data? = some (.round index count entry.1) := within.data.trans data
  have last : Iteration.isLast index count = decide (index + 1 = count) := by
    rw [Bool.eq_iff_iff, decide_eq_true_iff]
    exact Iteration.isLast_iff (Nat.zero_lt_of_lt inside)
  refine ⟨?_, ?_, ?_, ?_, ?_⟩
  · rw [lookup_data own metadata (by decide)]
    rfl
  · rw [lookup_data own metadata (by decide)]
    rfl
  · rw [lookup_data own metadata (by decide), ← last]
    rfl
  · rw [lookup_data own metadata (by decide)]
    rfl
  · have levels_eq : context.height - outer.height = levels + 1 := by
      rw [within.height, height]
      omega
    rw [levels_eq]
    apply lookup_raise
    rw [Scope.climb_add, within.climb, Option.bind_some, climbs]

end Context

namespace Style

private theorem renderNode_forEach
    {style : Style} (standard : style.helpers = .builtin) (host : Host) {tags : BlockTags}
    (isEach : tags.helper = "each") (body : List Node) (inverse : Option (List Node))
    (context : Context) (out : String) :
    let entries := ((context.lookup host.metadata tags.argument).map Value.entries).getD []
    style.renderNode host (.block tags body inverse) context out =
      if entries.isEmpty then style.renderNodes host (inverse.getD []) context out
      else
        (inSequence (entries.mapIdx fun index entry =>
          style.renderNodes host body (context.round entries.length index entry) "")).map
            fun text => out ++ text := by
  intro entries
  have plan : Plan.builtin? tags.helper = some Plan.forEach := by
    rw [isEach]
    rfl
  rw [style.renderNode_block_turns host standard, plan]
  dsimp only
  rw [Plan.forEach_eq]
  change List.foldlM _ out (if entries.isEmpty then _ else _) = _
  by_cases empty : entries.isEmpty = true
  -- Without entries there is one turn, that of the inverse in the context of the block.
  · rw [if_pos empty, if_pos empty, List.foldlM_cons]
    dsimp only
    rw [if_neg Bool.false_ne_true]
    cases style.renderNodes host (inverse.getD []) context out <;> rfl
  · rw [if_neg empty, if_neg empty, foldlM_eq_inSequence]
    · rw [List.map_map, List.mapIdx_eq_zipIdx_map, List.mapIdx_eq_zipIdx_map, List.map_map]
      rfl
    · intro turn _ buffer
      exact style.renderNodes_eq_map host standard _ turn.context buffer

/-- An iteration is the texts of its body in a row, one round for each entry of its argument, or
the inverse where there are no entries. Each round is in a context of its own within that of the
block. -/
theorem renderNode_each_rounds
    {style : Style} (standard : style.helpers = .builtin) (host : Host) {tags : BlockTags}
    (isEach : tags.helper = "each") (body : List Node) (inverse : Option (List Node))
    (context : Context) (out : String) :
    let argument := context.lookup host.metadata tags.argument
    let entries := (argument.map Value.entries).getD []
    let round := context.round entries.length
    style.renderNode host (.block tags body inverse) context out =
        (if entries.isEmpty then style.renderNodes host (inverse.getD []) context out
        else
          (inSequence (entries.mapIdx fun index entry =>
            style.renderNodes host body (round index entry) "")).map fun text => out ++ text) ∧
      (∀ members, argument = some (.ofMembers members) →
        ∃ ordered : List (String × Value),
          entries = ordered.map (fun member => (some member.1, member.2)) ∧
            ordered.Pairwise fun first second => first.1 < second.1) ∧
      ∀ index entry, entries[index]? = some entry →
        (∀ path, (round index entry).lookup host.metadata (path.raise 1) =
          context.lookup host.metadata path) ∧
        ∀ inner, (round index entry).LeadsTo host.metadata inner →
          inner.ShowsRound host.metadata context entries.length index entry.1 := by
  intro argument entries round
  refine ⟨renderNode_forEach standard host isEach body inverse context out, ?_, ?_⟩
  · intro members same
    obtain ⟨ordered, all, byName⟩ := Value.entries_ofMembers members
    refine ⟨ordered, ?_, byName⟩
    show (argument.map Value.entries).getD [] = _
    rw [same]
    exact all
  · intro index entry found
    obtain ⟨inside, _⟩ := List.getElem?_eq_some_iff.mp found
    obtain ⟨climbs, _, _⟩ := context.round_within entries.length index entry
    exact ⟨Context.lookup_raise climbs host.metadata, fun inner leads => leads.showsRound inside⟩

/-- Two members, a value in each of them, and a path out of both. -/
theorem renderNode_each_rounds_members :
    let rows : BlockTags :=
      ⟨"each", ⟨0, .context, ["rows"]⟩, default, default, default, default⟩
    let cell : BlockTags := ⟨"with", ⟨0, .context, ["v"]⟩, default, default, default, default⟩
    let body : List Node :=
      [.expression ⟨0, .data "key", []⟩ true default default,
        .block cell
          [.expression ⟨0, .data "index", []⟩ true default default,
            .expression ⟨2, .context, ["x"]⟩ true default default]
          none]
    let value : Value := .object [("v", .string "z")]
    let members := [("q", value), ("p", .object [("v", .null)])]
    let context : Context := .ofModel (.object [("rows", .ofMembers members), ("x", .string "!")])
    let host : Host := ⟨.standard, fun name _ => .error (.unknownPartial name)⟩
    let inner := (context.round 2 1 (some "q", value)).child (.string "z")
    Style.standard.renderNode host (.block rows body none) context "" = .ok "pq1!" ∧
      inner.ShowsRound .standard context 2 1 (some "q") := by
  intro rows cell body value members context host inner
  have rendered : Style.standard.renderNode host (.block rows body none) context "" =
      .ok "pq1!" := by
    decide +kernel
  refine ⟨rendered, ?_⟩
  have standard : Style.standard.helpers = .builtin := rfl
  obtain ⟨_, _, rounds⟩ :=
    renderNode_each_rounds standard host (show rows.helper = "each" from rfl) body none context ""
  have entries : ((context.lookup .standard rows.argument).map Value.entries).getD [] =
      [(some "p", .object [("v", .null)]), (some "q", value)] := by
    rfl
  rw [show host.metadata = .standard from rfl, entries] at rounds
  obtain ⟨_, shows⟩ := rounds 1 (some "q", value) rfl
  apply shows
  have leads : (context.round 2 1 (some "q", value)).LeadsTo .standard
      (context.round 2 1 (some "q", value)) := .here
  exact @Context.LeadsTo.block _ _ _ "with" _ (some (.string "z")) ⟨true, inner⟩ leads
    (by decide) rfl List.mem_cons_self

end Style

end Stencil
