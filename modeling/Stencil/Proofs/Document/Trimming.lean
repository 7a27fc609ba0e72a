import Stencil.Document.Whitespace
import Stencil.Proofs.Text.Blank

/-!
Trimming place by place. Each text is judged by the siblings right before and after it as they
were before any trimming, and at an edge of its section by the tag there. The passes over a
section come to the same, whatever order they meet the texts in.
-/

namespace Stencil

theorem trimEnds_unmarked (text : String) : trimEnds false false text = text := by
  simp [trimEnds]

theorem trimEnds_trimEnds (start stop earlierStart earlierStop : Bool) (text : String) :
    trimEnds start stop (trimEnds earlierStart earlierStop text) =
      trimEnds (start || earlierStart) (stop || earlierStop) text := by
  unfold trimEnds
  rw [String.toList_ofList]
  cases start <;> cases stop <;> cases earlierStart <;> cases earlierStop <;>
    simp [Text.trimStart_trimEnd]

namespace Node

/-! ## The rule -/

/-- Whether the text at a place loses its leading blanks: the sibling right before it tells, and
at the first place the tag before the section. -/
def losesLeading (start : Bool) (siblings : List Node) : Nat → Bool
  | 0 => start
  | before + 1 => siblings[before]?.any trimsAfter

/-- Whether the text at a place loses its trailing blanks: the sibling right after it tells, and
at the last place the tag behind the section. -/
def losesTrailing (stop : Bool) (siblings : List Node) (place : Nat) : Bool :=
  match siblings[place + 1]? with
  | some after => after.trimsBefore
  | none => stop

/-- Sibling nodes with their texts trimmed as is told place by place; empty texts are left
out. -/
def trimTexts (leading trailing : Nat → Bool) (nodes : List Node) : List Node :=
  (nodes.mapIdx fun place => trimText (leading place) (trailing place)).filter
    fun node => !node.isEmptyText

mutual

/-- A node whose sections are trimmed by the rule. -/
def trimmed : Node → Node
  | .block tags body inverse =>
      let bodyStop := if inverse.isSome then tags.middle.left else tags.closing.left
      .block tags
        (trimTexts (losesLeading tags.opening.right body) (losesTrailing bodyStop body)
          (trimmedEach body))
        (trimmedInverse tags.middle.right tags.closing.left inverse)
  | .text content span => .text content span
  | .expression path escaped trim span => .expression path escaped trim span
  | .comment content trim span => .comment content trim span
  | .partialTag name scope trim span => .partialTag name scope trim span
termination_by structural node => node

def trimmedEach : List Node → List Node
  | [] => []
  | node :: rest => trimmed node :: trimmedEach rest
termination_by structural nodes => nodes

def trimmedInverse (start stop : Bool) : Option (List Node) → Option (List Node)
  | none => none
  | some nodes =>
      some (trimTexts (losesLeading start nodes) (losesTrailing stop nodes) (trimmedEach nodes))
termination_by structural inverse => inverse

end

private theorem trimText_unmarked : trimText false false = id := by
  funext node
  cases node with
  | text content span => rw [trimText, trimEnds_unmarked, id]
  | expression | comment | block | partialTag => rfl

private theorem trimText_trimText (start stop earlierStart earlierStop : Bool) (node : Node) :
    (node.trimText earlierStart earlierStop).trimText start stop =
      node.trimText (start || earlierStart) (stop || earlierStop) := by
  cases node with
  | text content span => rw [trimText, trimText, trimText, trimEnds_trimEnds]
  | expression | comment | block | partialTag => rfl

@[simp] theorem trimsBefore_trimText (start stop : Bool) (node : Node) :
    (node.trimText start stop).trimsBefore = node.trimsBefore := by
  cases node <;> rfl

@[simp] theorem trimsAfter_trimText (start stop : Bool) (node : Node) :
    (node.trimText start stop).trimsAfter = node.trimsAfter := by
  cases node <;> rfl

theorem trimTexts_text
    (leading trailing : Nat → Bool) (content : String) (span : Span) (rest : List Node) :
    trimTexts leading trailing (.text content span :: rest) =
      if (trimEnds (leading 0) (trailing 0) content).isEmpty then
        trimTexts (fun place => leading (place + 1)) (fun place => trailing (place + 1)) rest
      else
        .text (trimEnds (leading 0) (trailing 0) content) span ::
          trimTexts (fun place => leading (place + 1)) (fun place => trailing (place + 1))
            rest := by
  rw [trimTexts, List.mapIdx_cons, List.filter_cons, trimText, isEmptyText]
  cases (trimEnds (leading 0) (trailing 0) content).isEmpty <;> rfl

theorem trimTexts_tag
    (leading trailing : Nat → Bool) {node : Node} (tag : ∀ content span, node ≠ .text content span)
    (rest : List Node) :
    trimTexts leading trailing (node :: rest) =
      node :: trimTexts (fun place => leading (place + 1)) (fun place => trailing (place + 1))
        rest := by
  rw [trimTexts, List.mapIdx_cons, List.filter_cons]
  cases node with
  | text content span => exact absurd rfl (tag content span)
  | expression | comment | block | partialTag => rfl

/-! ## Places -/

private theorem getElem?_modify_trimText
    (asked start stop : Bool) (nodes : List Node) (place other : Nat) :
    (if asked then nodes.modify place (trimText start stop) else nodes)[other]? =
      nodes[other]?.map (trimText (asked && other == place && start)
        (asked && other == place && stop)) := by
  cases asked with
  | false => simp [trimText_unmarked]
  | true =>
      rw [if_pos rfl, List.getElem?_modify]
      by_cases here : place = other
      · simp [here]
      · have differs : (other == place) = false := beq_eq_false_iff_ne.mpr (Ne.symm here)
        simp [here, differs, trimText_unmarked]

private theorem getElem?_trimEdges (start stop : Bool) (nodes : List Node) (place : Nat) :
    (trimEdges start stop nodes)[place]? =
      nodes[place]?.map (trimText (start && place == 0)
        (stop && place + 1 == nodes.length)) := by
  have length : (if start then nodes.modify 0 (trimText true false) else nodes).length =
      nodes.length := by
    split
    · exact List.length_modify ..
    · rfl
  unfold trimEdges
  dsimp only
  rw [length, getElem?_modify_trimText, getElem?_modify_trimText]
  cases there : nodes[place]? with
  | none => rfl
  | some node =>
      obtain ⟨bound, _⟩ := List.getElem?_eq_some_iff.mp there
      have last : (place == nodes.length - 1) = (place + 1 == nodes.length) := by
        rw [Bool.eq_iff_iff, beq_iff_eq, beq_iff_eq]
        omega
      rw [Option.map_some, Option.map_some, Option.map_some, trimText_trimText, last]
      simp

/-- A node trims the texts right before and after it, and no other. -/
theorem getElem?_trimAround
    {nodes : Array Node} {place : Nat} {node : Node} (there : nodes[place]? = some node)
    (other : Nat) :
    (trimAround nodes place)[other]? =
      nodes[other]?.map (trimText (other == place + 1 && node.trimsAfter)
        (other + 1 == place && node.trimsBefore)) := by
  unfold trimAround
  rw [there]
  dsimp only
  rw [← Array.getElem?_toList, apply_ite Array.toList, Array.toList_modify, apply_ite Array.toList,
    Array.toList_modify, getElem?_modify_trimText, getElem?_modify_trimText, Option.map_map,
    Array.getElem?_toList]
  have before : (decide (0 < place) && node.trimsBefore && other == place - 1) =
      (other + 1 == place && node.trimsBefore) := by
    cases node.trimsBefore with
    | false => simp
    | true =>
        rw [Bool.and_true, Bool.and_true, Bool.eq_iff_iff, Bool.and_eq_true,
          decide_eq_true_iff, beq_iff_eq, beq_iff_eq]
        omega
  congr 1
  funext sibling
  rw [Function.comp_apply, trimText_trimText, before, Bool.and_true, Bool.and_true,
    Bool.and_false, Bool.and_false, Bool.or_false, Bool.false_or,
    Bool.and_comm node.trimsAfter]

private theorem losesLeading_take_succ
    {siblings : List Node} {count : Nat} {node : Node} (there : siblings[count]? = some node)
    (place : Nat) :
    losesLeading false (siblings.take (count + 1)) place =
      (place == count + 1 && node.trimsAfter ||
        losesLeading false (siblings.take count) place) := by
  cases place with
  | zero => rfl
  | succ before =>
      rw [losesLeading, losesLeading, List.getElem?_take, List.getElem?_take]
      rcases Nat.lt_trichotomy before count with earlier | rfl | later
      · rw [if_pos (Nat.lt_succ_of_lt earlier), if_pos earlier]
        simp [Nat.ne_of_lt earlier]
      · rw [if_pos (Nat.lt_succ_self before), if_neg (Nat.lt_irrefl before), there]
        simp
      · rw [if_neg (by omega), if_neg (by omega)]
        simp [Nat.ne_of_gt later]

private theorem losesTrailing_take_succ
    {siblings : List Node} {count : Nat} {node : Node} (there : siblings[count]? = some node)
    (place : Nat) :
    losesTrailing false (siblings.take (count + 1)) place =
      (place + 1 == count && node.trimsBefore ||
        losesTrailing false (siblings.take count) place) := by
  rw [losesTrailing, losesTrailing, List.getElem?_take, List.getElem?_take]
  rcases Nat.lt_trichotomy (place + 1) count with earlier | rfl | later
  · rw [if_pos (Nat.lt_succ_of_lt earlier), if_pos earlier]
    simp [Nat.ne_of_lt earlier]
  · rw [if_pos (Nat.lt_succ_self _), if_neg (Nat.lt_irrefl _), there]
    simp
  · rw [if_neg (by omega), if_neg (by omega)]
    simp [Nat.ne_of_gt later]

/-- After some rounds the nodes that have had their turn have trimmed the texts next to them. -/
theorem getElem?_foldl_trimAround
    {nodes : List Node} {count : Nat} (bound : count ≤ nodes.length) (place : Nat) :
    ((List.range count).foldl trimAround nodes.toArray)[place]? =
      nodes[place]?.map (trimText (losesLeading false (nodes.take count) place)
        (losesTrailing false (nodes.take count) place)) := by
  induction count generalizing place with
  | zero =>
      rw [List.range_zero, List.foldl_nil, List.take_zero]
      cases place <;> simp [losesLeading, losesTrailing, trimText_unmarked]
  | succ count inductionHypothesis =>
      have here : nodes[count]? = some nodes[count] := List.getElem?_eq_getElem bound
      have there := inductionHypothesis (Nat.le_of_lt bound) count
      rw [here, Option.map_some] at there
      rw [List.range_succ, List.foldl_append, List.foldl_cons, List.foldl_nil,
        getElem?_trimAround there, inductionHypothesis (Nat.le_of_lt bound), Option.map_map,
        trimsAfter_trimText, trimsBefore_trimText, losesLeading_take_succ here,
        losesTrailing_take_succ here]
      congr 1
      funext sibling
      rw [Function.comp_apply, trimText_trimText]

private theorem getElem?_trimSiblings (nodes : List Node) (place : Nat) :
    (trimSiblings nodes)[place]? =
      nodes[place]?.map (trimText (losesLeading false nodes place)
        (losesTrailing false nodes place)) := by
  rw [trimSiblings, Array.getElem?_toList, getElem?_foldl_trimAround (Nat.le_refl _),
    List.take_length]

section Changed

/-! Of the siblings the marks count, and nothing else. -/

variable {siblings others : List Node} {change : Nat → Node → Node}
  (changed : ∀ place, others[place]? = siblings[place]?.map (change place))

include changed

private theorem losesLeading_of_changed
    (marks : ∀ place node, (change place node).trimsAfter = node.trimsAfter) (start : Bool)
    (place : Nat) : losesLeading start others place = losesLeading start siblings place := by
  cases place with
  | zero => rfl
  | succ before =>
      rw [losesLeading, losesLeading, changed]
      cases siblings[before]? with
      | none => rfl
      | some node => exact marks before node

private theorem losesTrailing_of_changed
    (marks : ∀ place node, (change place node).trimsBefore = node.trimsBefore) (stop : Bool)
    (place : Nat) : losesTrailing stop others place = losesTrailing stop siblings place := by
  rw [losesTrailing, losesTrailing, changed]
  cases siblings[place + 1]? with
  | none => rfl
  | some node => exact marks (place + 1) node

end Changed

private theorem losesLeading_eq_or (start : Bool) (siblings : List Node) (place : Nat) :
    losesLeading start siblings place =
      (losesLeading false siblings place || start && place == 0) := by
  cases place <;> simp [losesLeading]

private theorem losesTrailing_eq_or
    (stop : Bool) {siblings : List Node} {place : Nat} (bound : place < siblings.length) :
    losesTrailing stop siblings place =
      (losesTrailing false siblings place || stop && place + 1 == siblings.length) := by
  rw [losesTrailing, losesTrailing]
  rcases Nat.lt_or_ge (place + 1) siblings.length with inside | last
  · rw [List.getElem?_eq_getElem inside]
    simp [Nat.ne_of_lt inside]
  · rw [List.getElem?_eq_none last]
    have atLast : place + 1 = siblings.length := Nat.le_antisymm bound last
    simp [atLast]

/-! ## Sections -/

private theorem collapseEach_eq_map (nodes : List Node) :
    collapseEach nodes = nodes.map collapse := by
  induction nodes with
  | nil => rw [collapseEach, List.map_nil]
  | cons node rest inductionHypothesis =>
      rw [collapseEach, inductionHypothesis, List.map_cons]

private theorem collapse_trimText (start stop : Bool) (node : Node) :
    (node.trimText start stop).collapse = node.collapse.trimText start stop := by
  cases node with
  | block tags body inverse => cases inverse <;> rw [trimText, collapse, trimText]
  | text content span => rw [trimText, collapse, collapse, trimText]
  | expression | comment | partialTag => rw [trimText, collapse, trimText]

private theorem trimsBefore_collapse (node : Node) :
    node.collapse.trimsBefore = node.trimsBefore := by
  cases node with
  | block tags body inverse =>
      cases inverse <;> rw [collapse] <;> rfl
  | text | expression | comment | partialTag => rw [collapse]

private theorem trimsAfter_collapse (node : Node) : node.collapse.trimsAfter = node.trimsAfter := by
  cases node with
  | block tags body inverse =>
      cases inverse <;> rw [collapse] <;> rfl
  | text | expression | comment | partialTag => rw [collapse]

/-- The passes over a section trim its texts by the rule. -/
theorem collapseNodes_trimEdges (start stop : Bool) (nodes : List Node) :
    collapseNodes (trimEdges start stop nodes) =
      trimTexts (losesLeading start nodes) (losesTrailing stop nodes) (nodes.map collapse) := by
  -- What the two earlier passes have made of the section when its nodes have their turn.
  have changed (place : Nat) : ((trimEdges start stop nodes).map collapse)[place]? =
      nodes[place]?.map (fun node => node.collapse.trimText (start && place == 0)
        (stop && place + 1 == nodes.length)) := by
    rw [List.getElem?_map, getElem?_trimEdges, Option.map_map]
    congr 1
    funext node
    exact collapse_trimText _ _ node
  rw [collapseNodes, collapseEach_eq_map, trimTexts]
  congr 1
  apply List.ext_getElem?
  intro place
  rw [getElem?_trimSiblings, changed, losesLeading_of_changed changed,
    losesTrailing_of_changed changed, List.getElem?_mapIdx, List.getElem?_map]
  · cases there : nodes[place]? with
    | none => rfl
    | some node =>
        obtain ⟨bound, _⟩ := List.getElem?_eq_some_iff.mp there
        rw [Option.map_some, Option.map_some, Option.map_some, Option.map_some,
          trimText_trimText, ← losesLeading_eq_or, ← losesTrailing_eq_or stop bound]
  · intro place node
    rw [trimsBefore_trimText, trimsBefore_collapse]
  · intro place node
    rw [trimsAfter_trimText, trimsAfter_collapse]

private theorem collapseEach_eq_trimmedEach (nodes : List Node) :
    collapseEach nodes = trimmedEach nodes := by
  induction nodes using siblings_induction with
  | nil => rw [collapseEach, trimmedEach]
  | text _ _ _ inductionHypothesis | expression _ _ _ _ _ inductionHypothesis
  | comment _ _ _ _ inductionHypothesis | partialTag _ _ _ _ _ inductionHypothesis =>
      rw [collapseEach, trimmedEach, collapse, trimmed, inductionHypothesis]
  | block tags body inverse rest bodyHypothesis inverseHypothesis restHypothesis =>
      rw [collapseEach, trimmedEach, restHypothesis, trimmed]
      rw [collapseEach_eq_map] at bodyHypothesis
      cases inverse with
      | none =>
          rw [collapse, collapseNodes_trimEdges, bodyHypothesis, trimmedInverse]
          rfl
      | some nodes =>
          rw [Option.getD_some, collapseEach_eq_map] at inverseHypothesis
          rw [collapse, collapseNodes_trimEdges, collapseNodes_trimEdges, bodyHypothesis,
            inverseHypothesis, trimmedInverse]
          rfl

end Node

namespace Document

def trimmed (document : Document) : Document :=
  ⟨Node.trimTexts (Node.losesLeading false document.nodes)
    (Node.losesTrailing false document.nodes) (Node.trimmedEach document.nodes)⟩

theorem collapseWhitespace_eq_trimmed (document : Document) :
    document.collapseWhitespace = document.trimmed := by
  have unmarked : Node.trimEdges false false document.nodes = document.nodes := rfl
  rw [collapseWhitespace, trimmed, ← unmarked, Node.collapseNodes_trimEdges,
    ← Node.collapseEach_eq_map, Node.collapseEach_eq_trimmedEach, unmarked]

end Document

end Stencil
