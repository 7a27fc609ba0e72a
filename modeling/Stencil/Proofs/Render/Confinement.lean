import Mathlib.Data.List.Forall2
import Stencil.Proofs.Render.Passages

/-!
Nodes that stay within a value. Where no path of some nodes climbs past them, and every data
variable is that of an iteration among them, they are rendered alike within a value, whatever
stands around it.
-/

namespace Stencil

/-- What the body of a block adds around its nodes: an item with the data of its round, or a
value alone. -/
inductive Enclosure where
  | item
  | value
deriving DecidableEq

/-- What stands around the body of a block of a helper, from the innermost. -/
def Enclosure.around (helper : String) (enclosures : List Enclosure) : List Enclosure :=
  if helper = "each" then .item :: enclosures
  else if helper = "with" then .value :: enclosures
  else enclosures

/-- Whether a path leads nowhere but into the enclosures around it and the value that these
stand in. -/
structure Path.StaysWithin (path : Path) (enclosures : List Enclosure) : Prop where
  climbs : path.parents ≤ enclosures.length
  data : ∀ name, path.root = .data name →
    name ≠ "root" ∧ Enclosure.item ∈ enclosures.drop path.parents

/-- Whether all paths of some nodes stay within them, and no partial is called. A missing inverse
section counts as an empty one. -/
inductive Confined : List Enclosure → List Node → Prop
  | nil {enclosures : List Enclosure} : Confined enclosures []
  | text {enclosures : List Enclosure} (content : String) (span : Span) {rest : List Node} :
      Confined enclosures rest →
      Confined enclosures (.text content span :: rest)
  | comment {enclosures : List Enclosure} (content : String) (trim : Trim) (span : Span)
      {rest : List Node} :
      Confined enclosures rest →
      Confined enclosures (.comment content trim span :: rest)
  | expression {enclosures : List Enclosure} {path : Path} (escaped : Bool) (trim : Trim)
      (span : Span) {rest : List Node} :
      path.StaysWithin enclosures →
      Confined enclosures rest →
      Confined enclosures (.expression path escaped trim span :: rest)
  | block {enclosures : List Enclosure} {tags : BlockTags} {body : List Node}
      {inverse : Option (List Node)} {rest : List Node} :
      tags.argument.StaysWithin enclosures →
      Confined (Enclosure.around tags.helper enclosures) body →
      Confined enclosures (inverse.getD []) →
      Confined enclosures rest →
      Confined enclosures (.block tags body inverse :: rest)

/-- Whether two scopes are the same as far as some enclosures and the value around them. -/
inductive Scope.Same : List Enclosure → Scope → Scope → Prop
  | here (value : Value) (outer other : Scope) :
      Same [] (.nested value none outer) (.nested value none other)
  | item (value : Value) (data : Iteration) {enclosures : List Enclosure}
      {outer other : Scope} :
      Same enclosures outer other →
      Same (.item :: enclosures) (.nested value (some data) outer)
        (.nested value (some data) other)
  | value (value : Value) {enclosures : List Enclosure} {outer other : Scope} :
      Same enclosures outer other →
      Same (.value :: enclosures) (.nested value none outer) (.nested value none other)

namespace Scope.Same

variable {enclosures : List Enclosure} {first second : Scope}

private theorem value_eq (same : Same enclosures first second) : first.value = second.value := by
  cases same <;> rfl

/-- Climbing as many levels as there are enclosures leads to scopes that are the same still. -/
theorem climb {levels : Nat} (same : Same enclosures first second)
    (within : levels ≤ enclosures.length) :
    ∃ outer other, first.climb levels = some outer ∧ second.climb levels = some other ∧
      Same (enclosures.drop levels) outer other := by
  induction levels generalizing enclosures first second with
  | zero => exact ⟨first, second, rfl, rfl, same⟩
  | succ levels inductionHypothesis =>
      cases same with
      | here => exact absurd within (Nat.not_succ_le_zero levels)
      | item value data outer => exact inductionHypothesis outer (Nat.le_of_succ_le_succ within)
      | value value outer => exact inductionHypothesis outer (Nat.le_of_succ_le_succ within)

theorem data?_eq (same : Same enclosures first second) (item : Enclosure.item ∈ enclosures) :
    first.data? = second.data? := by
  induction same with
  | here => exact absurd item List.not_mem_nil
  | item => rfl
  | value _ _ inductionHypothesis =>
      rcases List.mem_cons.mp item with differs | item
      · exact nomatch differs
      · exact inductionHypothesis item

theorem start?_eq
    {root : Path.Root} (same : Same enclosures first second)
    (data : ∀ name, root = .data name → name ≠ "root" ∧ Enclosure.item ∈ enclosures) :
    first.start? root = second.start? root := by
  cases root with
  | context => exact congrArg some same.value_eq
  | data name =>
      obtain ⟨noRoot, item⟩ := data name rfl
      rw [start?, start?, dataValue?, dataValue?, if_neg noRoot, if_neg noRoot,
        same.data?_eq item]

end Scope.Same

/-- A path that stays within the enclosures denotes the same value in scopes that are the same
as far as these. -/
theorem Context.lookup_eq_of_same
    {enclosures : List Enclosure} {first second : Context}
    (same : Scope.Same enclosures first.scope second.scope) (metadata : Metadata) {path : Path}
    (stays : path.StaysWithin enclosures) :
    first.lookup metadata path = second.lookup metadata path := by
  obtain ⟨outer, other, climbs, otherClimbs, sameOuter⟩ := same.climb stays.climbs
  rw [lookup, lookup, climbs, otherClimbs]
  dsimp only
  rw [sameOuter.start?_eq stays.data]

/-- Whether two turns render the same section in scopes that are the same as far as what stands
around that section. -/
structure Turn.Same (helper : String) (enclosures : List Enclosure) (first second : Turn) :
    Prop where
  main : first.main = second.main
  scope : Scope.Same (if first.main then Enclosure.around helper enclosures else enclosures)
    first.context.scope second.context.scope

private theorem Entry.turn_same
    {helper : String} {entry : Entry} (possible : entry.Of helper)
    {enclosures : List Enclosure} {first second : Context}
    (same : Scope.Same enclosures first.scope second.scope) :
    Turn.Same helper enclosures (entry.turn first) (entry.turn second) := by
  cases possible with
  | inverse => exact ⟨rfl, same⟩
  | stay main noWith noEach =>
      have opens : Enclosure.around helper enclosures = enclosures := by
        rw [Enclosure.around, if_neg noEach, if_neg noWith]
      refine ⟨rfl, ?_⟩
      rw [opens, ite_self]
      exact same
  | enter value => exact ⟨rfl, .value value same⟩
  | round value data => exact ⟨rfl, .item value data same⟩

private theorem Plan.builtin?_same
    {enclosures : List Enclosure} {first second : Context}
    (same : Scope.Same enclosures first.scope second.scope) {helper : String} {plan : Plan}
    (found : builtin? helper = some plan) (metadata : Metadata) (argument : Option Value) :
    List.Forall₂ (Turn.Same helper enclosures) (plan metadata first argument)
      (plan metadata second argument) := by
  obtain ⟨entries, possible, turns⟩ := builtin?_enters found metadata argument
  dsimp only at turns
  rw [turns, turns, List.forall₂_map_left_iff, List.forall₂_map_right_iff, List.forall₂_same]
  exact fun entry member => Entry.turn_same (possible entry member) same

private theorem foldlM_eq_of_forall₂
    {α : Type} {related : α → α → Prop} {items others : List α}
    (pairs : List.Forall₂ related items others) {take other : String → α → Outcome}
    (each : ∀ item partner, related item partner → ∀ out, take out item = other out partner)
    (out : String) : items.foldlM take out = others.foldlM other out := by
  induction pairs generalizing out with
  | nil => rfl
  | cons pair _ inductionHypothesis =>
      rw [List.foldlM_cons, List.foldlM_cons, each _ _ pair]
      exact congrArg _ (funext inductionHypothesis)

namespace Style

/-- Nodes that stay within some enclosures are rendered alike in scopes that are the same as far
as these. -/
theorem renderNodes_eq_of_confined
    {style : Style} (standard : style.helpers = .builtin) {host other : Host}
    (metadata : host.metadata = other.metadata) {enclosures : List Enclosure}
    {nodes : List Node} (confined : Confined enclosures nodes) {first second : Context}
    (same : Scope.Same enclosures first.scope second.scope) (out : String) :
    style.renderNodes host nodes first out = style.renderNodes other nodes second out := by
  induction confined generalizing first second out with
  | nil => rw [renderNodes_nil, renderNodes_nil]
  | text content span _ inductionHypothesis =>
      rw [renderNodes_text, renderNodes_text]
      exact inductionHypothesis same _
  | comment content trim span _ inductionHypothesis =>
      rw [renderNodes_comment, renderNodes_comment]
      exact inductionHypothesis same _
  | expression escaped trim span stays _ inductionHypothesis =>
      rw [renderNodes_expression, renderNodes_expression, appendValue, appendValue, metadata,
        Context.lookup_eq_of_same same other.metadata stays]
      exact inductionHypothesis same _
  | @block enclosures tags body inverse rest stays _ _ _ bodyHypothesis inverseHypothesis
      restHypothesis =>
      rw [renderNodes_cons, renderNodes_cons, style.renderNode_block_turns host standard,
        style.renderNode_block_turns other standard, metadata,
        Context.lookup_eq_of_same same other.metadata stays]
      cases found : Plan.builtin? tags.helper with
      | none => rfl
      | some plan =>
          have turns := Plan.builtin?_same same found other.metadata
            (second.lookup other.metadata tags.argument)
          dsimp only
          rw [foldlM_eq_of_forall₂ turns]
          · exact congrArg _ (funext fun text => restHypothesis same text)
          · rintro ⟨main, context⟩ ⟨_, partner⟩ ⟨rfl, scopes⟩ text
            cases main with
            | true => exact bodyHypothesis scopes text
            | false => exact inverseHypothesis scopes text

/-- Nodes that do not climb out of a value are rendered alike within it, whatever stands around
it: other values, data and models, other partials and another depth. -/
theorem renderNodes_child_of_confined
    {style : Style} (standard : style.helpers = .builtin) {host other : Host}
    (metadata : host.metadata = other.metadata) {nodes : List Node}
    (confined : Confined [] nodes) (value : Value) (first second : Context) (out : String) :
    style.renderNodes host nodes (first.child value) out =
      style.renderNodes other nodes (second.child value) out :=
  renderNodes_eq_of_confined standard metadata confined (.here value first.scope second.scope) out

/-- Rows with the index of the round and a label of the value around them, once in the model
itself and once within an iteration below a partial. -/
theorem renderNodes_child_of_confined_rows :
    let cell : Node := .block ⟨"with", ⟨0, .context, ["cell"]⟩, default, default, default, default⟩
      [.expression ⟨0, .data "index", []⟩ true default default,
        .expression ⟨2, .context, ["label"]⟩ true default default,
        .expression ⟨0, .context, []⟩ true default default] none
    let nodes : List Node :=
      [.block ⟨"each", ⟨0, .context, ["rows"]⟩, default, default, default, default⟩ [cell]
        (some [.expression ⟨0, .context, ["label"]⟩ true default default])]
    let value : Value :=
      .object [("label", .string "-"),
        ("rows", .array [.object [("cell", .string "a")], .object [("cell", .string "b")]])]
    let first : Context := .ofModel value
    let second : Context := ((Context.ofModel .null).forPartial (some (.bool true))).withData
      (.round 7 9 (some "key"))
    let host : Host := ⟨.standard, fun name _ => .error (.unknownPartial name)⟩
    let other : Host := ⟨.standard, fun _ _ => .ok "partial"⟩
    Confined [] nodes ∧ host.metadata = other.metadata ∧
      Style.standard.renderNodes host nodes (first.child value) "" =
        Style.standard.renderNodes other nodes (second.child value) "" ∧
      Style.standard.renderNodes other nodes (second.child value) "" = .ok "0-a1-b" := by
  intro cell nodes value first second host other
  have within (path : Path) (enclosures : List Enclosure) (context : path.root = .context)
      (climbs : path.parents ≤ enclosures.length) : path.StaysWithin enclosures :=
    ⟨climbs, fun name data => nomatch context.symm.trans data⟩
  have index : Path.StaysWithin ⟨0, .data "index", []⟩ [.value, .item] := by
    refine ⟨by decide, fun name data => ?_⟩
    obtain rfl := Path.Root.data.inj data
    exact ⟨by decide, by decide⟩
  have body : Confined [.item] [cell] :=
    .block (within _ _ rfl (by decide))
      (.expression true _ _ index
        (.expression true _ _ (within _ _ rfl (by decide))
          (.expression true _ _ (within _ _ rfl (by decide)) .nil)))
      .nil .nil
  have confined : Confined [] nodes :=
    .block (within _ _ rfl (by decide)) body
      (.expression true _ _ (within _ _ rfl (by decide)) .nil) .nil
  have standard : Style.standard.helpers = .builtin := rfl
  have metadata : host.metadata = other.metadata := rfl
  have alike :=
    renderNodes_child_of_confined standard metadata confined value first second ""
  exact ⟨confined, metadata, alike, by decide +kernel⟩

end Style

end Stencil
