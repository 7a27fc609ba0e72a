import Mathlib.Data.List.Induction
import Stencil.Proofs.Document.Respelling
import Stencil.Proofs.Document.Visits

/-!
The partials that a document names. The walk that collects them meets every call, in both
sections of each block, and keeps each name once, where it was first used.
-/

namespace Stencil

def Mark.partial? : Mark → Option String
  | .leaf (.partialTag name _ _ _) => some name
  | _ => none

def addName (names : List String) (name : String) : List String :=
  if name ∈ names then names else names ++ [name]

private theorem mem_addName {names : List String} {added name : String} :
    name ∈ addName names added ↔ name ∈ names ∨ name = added := by
  unfold addName
  by_cases there : added ∈ names
  · rw [if_pos there]
    constructor
    · exact .inl
    · rintro (member | rfl)
      · exact member
      · exact there
  · rw [if_neg there, List.mem_append, List.mem_singleton]

private theorem mem_foldl_addName {names added : List String} {name : String} :
    name ∈ added.foldl addName names ↔ name ∈ names ∨ name ∈ added := by
  induction added generalizing names with
  | nil => simp
  | cons first rest inductionHypothesis =>
      rw [List.foldl_cons, inductionHypothesis, mem_addName, List.mem_cons, or_assoc]

private theorem eraseDups_append_singleton (names : List String) (name : String) :
    (names ++ [name]).eraseDups =
      if name ∈ names then names.eraseDups else names.eraseDups ++ [name] := by
  rw [List.eraseDups_append]
  by_cases there : name ∈ names
  · simp [List.removeAll, there]
  · simp [List.removeAll, there, List.eraseDups_cons]

private theorem foldl_addName_eq_eraseDups (names : List String) :
    names.foldl addName [] = names.eraseDups := by
  induction names using List.reverseRecOn with
  | nil => rfl
  | append_singleton names name inductionHypothesis =>
      rw [List.foldl_append, List.foldl_cons, List.foldl_nil, inductionHypothesis, addName,
        eraseDups_append_singleton]
      simp only [List.mem_eraseDups]

theorem pairwise_idxOf_eraseDups (names : List String) :
    names.eraseDups.Pairwise fun first second => names.idxOf first < names.idxOf second := by
  induction names using List.reverseRecOn with
  | nil => exact .nil
  | append_singleton names name inductionHypothesis =>
      have earlier : names.eraseDups.Pairwise fun first second =>
          (names ++ [name]).idxOf first < (names ++ [name]).idxOf second := by
        refine inductionHypothesis.imp_of_mem ?_
        intro first second firstMember secondMember lower
        rw [List.idxOf_append_of_mem (List.mem_eraseDups.mp firstMember),
          List.idxOf_append_of_mem (List.mem_eraseDups.mp secondMember)]
        exact lower
      rw [eraseDups_append_singleton]
      by_cases there : name ∈ names
      · rw [if_pos there]
        exact earlier
      · rw [if_neg there, List.pairwise_append]
        refine ⟨earlier, List.pairwise_singleton _ _, ?_⟩
        intro first firstMember second secondMember
        have used := List.mem_eraseDups.mp firstMember
        rw [List.mem_singleton.mp secondMember, List.idxOf_append_of_mem used,
          List.idxOf_append_of_notMem there]
        exact Nat.lt_add_right _ (List.idxOf_lt_length_of_mem used)

theorem nodup_eraseDups (names : List String) :
    names.eraseDups.Nodup := by
  refine (pairwise_idxOf_eraseDups names).imp ?_
  intro first second lower same
  rw [same] at lower
  exact Nat.lt_irrefl _ lower

namespace Node

/-- The names in the calls of partials among sibling nodes, at any depth, in their order. -/
def partialNames (nodes : List Node) : List String :=
  (marksNodes nodes).filterMap Mark.partial?

private theorem partialNames_cons_leaf
    {node : Node} (leaf : node.marks = [.leaf node]) (rest : List Node) :
    partialNames (node :: rest) = node.partial?.toList ++ partialNames rest := by
  rw [partialNames, marksNodes, leaf, List.filterMap_append, partialNames]
  cases node <;> rfl

private theorem partialNames_cons_block
    (tags : BlockTags) (body : List Node) (inverse : Option (List Node)) (rest : List Node) :
    partialNames (.block tags body inverse :: rest) =
      partialNames body ++ partialNames (inverse.getD []) ++ partialNames rest := by
  cases inverse <;>
    simp [partialNames, marksNodes, marks, marksInverse, List.filterMap_cons, Mark.partial?]

private theorem partialNames_eq_filterMap_visited (nodes : List Node) :
    partialNames nodes = (visited nodes).filterMap partial? := by
  induction nodes using leaves_induction with
  | nil => rfl
  | leaf node rest leaf inductionHypothesis =>
      rw [partialNames_cons_leaf leaf, visited_cons_leaf leaf, List.filterMap_cons,
        inductionHypothesis]
      cases node.partial? <;> rfl
  | block tags body inverse rest bodyHypothesis inverseHypothesis restHypothesis =>
      rw [partialNames_cons_block, bodyHypothesis, inverseHypothesis, restHypothesis,
        visited_cons_block, List.filterMap_cons_none rfl, List.filterMap_append,
        List.filterMap_append]

private theorem collectPartialsInverse_eq (inverse : Option (List Node)) (names : List String) :
    collectPartialsInverse inverse names = collectPartialsNodes (inverse.getD []) names := by
  cases inverse with
  | none => rw [collectPartialsInverse, Option.getD_none, collectPartialsNodes]
  | some nodes => rw [collectPartialsInverse, Option.getD_some]

private theorem collectPartials_of_leaf
    {node : Node} (leaf : node.marks = [.leaf node]) (names : List String) :
    collectPartials node names = node.partial?.toList.foldl addName names := by
  cases node with
  | text | expression | comment | partialTag => rfl
  | block => exact absurd leaf (marks_block_ne_leaf _ _ _ _)

/-- The walk adds the called names one after the other. -/
theorem collectPartialsNodes_eq_foldl (nodes : List Node) (names : List String) :
    collectPartialsNodes nodes names = (partialNames nodes).foldl addName names := by
  induction nodes using leaves_induction generalizing names with
  | nil => rfl
  | leaf node rest leaf inductionHypothesis =>
      rw [collectPartialsNodes, collectPartials_of_leaf leaf, inductionHypothesis,
        partialNames_cons_leaf leaf, List.foldl_append]
  | block tags body inverse rest bodyHypothesis inverseHypothesis restHypothesis =>
      rw [collectPartialsNodes, collectPartials, collectPartialsInverse_eq, bodyHypothesis,
        inverseHypothesis, restHypothesis, partialNames_cons_block, List.foldl_append,
        List.foldl_append]

end Node

namespace Document

private theorem referencedPartials_eq_foldl (document : Document) :
    document.referencedPartials = (document.marks.filterMap Mark.partial?).foldl addName [] :=
  Node.collectPartialsNodes_eq_foldl document.nodes []

theorem referencedPartials_eq_eraseDups (document : Document) :
    document.referencedPartials = (document.visited.filterMap Node.partial?).eraseDups := by
  rw [referencedPartials_eq_foldl, foldl_addName_eq_eraseDups]
  exact congrArg List.eraseDups (Node.partialNames_eq_filterMap_visited document.nodes)

theorem mem_referencedPartials
    {document : Document} {name : String} {scope : Option Path} {trim : Trim} {span : Span}
    (member : .leaf (.partialTag name scope trim span) ∈ document.marks) :
    name ∈ document.referencedPartials := by
  rw [referencedPartials_eq_foldl, mem_foldl_addName]
  exact .inr (List.mem_filterMap.mpr ⟨_, member, rfl⟩)

theorem referencedPartials_collapseWhitespace (document : Document) :
    document.collapseWhitespace.referencedPartials = document.referencedPartials := by
  rw [referencedPartials_eq_foldl, referencedPartials_eq_foldl,
    filterMap_marks_collapseWhitespace]
  intro mark text
  cases mark with
  | leaf node =>
      cases node with
      | text | expression | comment | block => rfl
      | partialTag => exact Bool.noConfusion text
  | opening | middle | closing => rfl

end Document

end Stencil
