import Stencil.Proofs.Document.Marks
import Stencil.Proofs.Document.Trimming

/-!
Documents that differ in their texts only. Trimming is such a change: it gives texts another
spelling or leaves them out, and every other node keeps its place and its marks.
-/

namespace Stencil

def Mark.isText : Mark → Bool
  | .leaf (.text _ _) => true
  | _ => false

def Mark.flags : Mark → List Bool
  | .leaf node => [node.trimsBefore, node.trimsAfter]
  | .opening _ _ trim _ => [trim.left, trim.right]
  | .middle trim => [trim.left, trim.right]
  | .closing _ trim => [trim.left, trim.right]

namespace Node

/-- Whether sibling nodes come from others by changes of texts, at any depth: a text may give way
to one that is the same to some measure, or be left out where it is the same as none. -/
inductive Respelled (same : String → String → Prop) : List Node → List Node → Prop
  | nil : Respelled same [] []
  | keep (node : Node) {rest after : List Node} :
      Respelled same rest after →
      Respelled same (node :: rest) (node :: after)
  | text {content changed : String} (span : Span) {rest after : List Node} :
      same content changed →
      Respelled same rest after →
      Respelled same (.text content span :: rest) (.text changed span :: after)
  | drop {content : String} (span : Span) {rest after : List Node} :
      same content "" →
      Respelled same rest after →
      Respelled same (.text content span :: rest) after
  | block (tags : BlockTags) {body bodyAfter : List Node}
      {inverse inverseAfter : Option (List Node)} {rest after : List Node} :
      Respelled same body bodyAfter →
      inverseAfter.isSome = inverse.isSome →
      Respelled same (inverse.getD []) (inverseAfter.getD []) →
      Respelled same rest after →
      Respelled same (.block tags body inverse :: rest)
        (.block tags bodyAfter inverseAfter :: after)

private theorem marksInverse_of_isSome
    (middle : Trim) {inverse : Option (List Node)} (there : inverse.isSome = true) :
    marksInverse middle inverse = .middle middle :: marksNodes (inverse.getD []) := by
  obtain ⟨nodes, rfl⟩ := Option.isSome_iff_exists.mp there
  rfl

/-- All marks but those of texts stay as they are. -/
theorem Respelled.filter_marksNodes
    {same : String → String → Prop} {nodes after : List Node}
    (respelled : Respelled same nodes after) :
    (marksNodes after).filter (fun mark => !mark.isText) =
      (marksNodes nodes).filter fun mark => !mark.isText := by
  induction respelled with
  | nil => rfl
  | keep node _ inductionHypothesis =>
      rw [marksNodes, marksNodes, List.filter_append, List.filter_append, inductionHypothesis]
  | text span _ _ inductionHypothesis =>
      rw [marksNodes, marksNodes, List.filter_append, List.filter_append, inductionHypothesis]
      rfl
  | drop span _ _ inductionHypothesis =>
      rw [marksNodes, List.filter_append, inductionHypothesis]
      rfl
  | @block tags body bodyAfter inverse inverseAfter rest after _ present _ _ bodyHypothesis
      inverseHypothesis restHypothesis =>
      have inverses : (marksInverse tags.middle inverseAfter).filter (fun mark => !mark.isText) =
          (marksInverse tags.middle inverse).filter fun mark => !mark.isText := by
        cases there : inverse.isSome with
        | false =>
            rw [there] at present
            rw [Option.isSome_eq_false_iff, Option.isNone_iff_eq_none] at there present
            rw [there, present]
        | true =>
            rw [there] at present
            rw [marksInverse_of_isSome _ there, marksInverse_of_isSome _ present,
              List.filter_cons, List.filter_cons, inverseHypothesis]
      rw [marksNodes, marksNodes, marks, marks]
      simp only [List.filter_append, List.filter_cons, bodyHypothesis, inverses, restHypothesis]

private theorem Respelled.filterMap_marksNodes
    {same : String → String → Prop} {nodes after : List Node}
    (respelled : Respelled same nodes after) {α : Type} {tell : Mark → Option α}
    (silent : ∀ mark, mark.isText = true → tell mark = none) :
    (marksNodes after).filterMap tell = (marksNodes nodes).filterMap tell := by
  have skip (marks : List Mark) :
      marks.filterMap tell = (marks.filter fun mark => !mark.isText).filterMap tell := by
    rw [List.filterMap_filter]
    congr 1
    funext mark
    cases text : mark.isText with
    | false => rfl
    | true => exact silent mark text
  rw [skip, respelled.filter_marksNodes, ← skip]

/-! ## Trimming -/

/-- Whether all trim marks among sibling nodes, at any depth, are of a kind. -/
def Flagged (allowed : Bool → Prop) (nodes : List Node) : Prop :=
  ∀ mark ∈ marksNodes nodes, ∀ flag ∈ mark.flags, allowed flag

section Flagged

variable {allowed : Bool → Prop}

private theorem Flagged.of_subset
    {nodes others : List Node} (flagged : Flagged allowed nodes)
    (subset : marksNodes others ⊆ marksNodes nodes) : Flagged allowed others :=
  fun mark member => flagged mark (subset member)

theorem Flagged.rest
    {node : Node} {rest : List Node} (flagged : Flagged allowed (node :: rest)) :
    Flagged allowed rest := by
  apply flagged.of_subset
  rw [marksNodes]
  exact List.subset_append_right _ _

theorem Flagged.sections
    {tags : BlockTags} {body : List Node} {inverse : Option (List Node)} {rest : List Node}
    (flagged : Flagged allowed (.block tags body inverse :: rest)) :
    allowed tags.opening.right ∧ allowed tags.closing.left ∧
      (inverse.isSome = true → allowed tags.middle.left ∧ allowed tags.middle.right) ∧
      Flagged allowed body ∧ Flagged allowed (inverse.getD []) := by
  have all : ∀ mark ∈ (Node.block tags body inverse).marks, ∀ flag ∈ mark.flags,
      allowed flag := by
    intro mark member
    apply flagged
    rw [marksNodes]
    exact List.mem_append_left _ member
  rw [marks] at all
  refine ⟨?_, ?_, ?_, ?_, ?_⟩
  · have flags := all (.opening tags.helper tags.argument tags.opening tags.span) (by simp)
    exact flags _ (by simp [Mark.flags])
  · have flags := all (.closing tags.helper tags.closing) (by simp)
    exact flags _ (by simp [Mark.flags])
  · intro present
    have member : .middle tags.middle ∈ marksInverse tags.middle inverse := by
      rw [marksInverse_of_isSome _ present]
      exact List.mem_cons_self
    have flags := all (.middle tags.middle) (by simp [member])
    exact ⟨flags _ (by simp [Mark.flags]), flags _ (by simp [Mark.flags])⟩
  · intro mark member
    exact all mark (by simp [member])
  · intro mark member
    cases inverse with
    | none => exact absurd member List.not_mem_nil
    | some nodes =>
        have inInverse : mark ∈ marksInverse tags.middle (some nodes) :=
          List.mem_cons_of_mem _ member
        exact all mark (by simp [inInverse])

private theorem exists_mark_of_trimsBefore (node : Node) :
    ∃ mark ∈ node.marks, node.trimsBefore ∈ mark.flags := by
  cases node with
  | block tags body inverse =>
      rw [marks]
      exact ⟨_, List.mem_cons_self, List.mem_cons_self⟩
  | text | expression | comment | partialTag =>
      rw [marks]
      exact ⟨_, List.mem_cons_self, List.mem_cons_self⟩

private theorem exists_mark_of_trimsAfter (node : Node) :
    ∃ mark ∈ node.marks, node.trimsAfter ∈ mark.flags := by
  cases node with
  | block tags body inverse =>
      rw [marks]
      refine ⟨.closing tags.helper tags.closing, ?_, ?_⟩
      · simp
      · exact List.mem_cons_of_mem _ List.mem_cons_self
  | text | expression | comment | partialTag =>
      rw [marks]
      exact ⟨_, List.mem_cons_self, List.mem_cons_of_mem _ List.mem_cons_self⟩

private theorem marks_subset_marksNodes
    {node : Node} {nodes : List Node} (member : node ∈ nodes) :
    node.marks ⊆ marksNodes nodes := by
  obtain ⟨before, after, rfl⟩ := List.append_of_mem member
  rw [marksNodes_append, marksNodes]
  intro mark inNode
  simp [inNode]

private theorem allowed_losesLeading
    {nodes : List Node} (flagged : Flagged allowed nodes) (never : allowed false)
    {start : Bool} (first : allowed start) (place : Nat) :
    allowed (losesLeading start nodes place) := by
  cases place with
  | zero => exact first
  | succ before =>
      rw [losesLeading]
      cases there : nodes[before]? with
      | none => exact never
      | some node =>
          obtain ⟨mark, inNode, inMark⟩ := exists_mark_of_trimsAfter node
          have member := marks_subset_marksNodes (List.mem_of_getElem? there)
          exact flagged mark (member inNode) _ inMark

private theorem allowed_losesTrailing
    {nodes : List Node} (flagged : Flagged allowed nodes) {stop : Bool} (last : allowed stop)
    (place : Nat) : allowed (losesTrailing stop nodes place) := by
  rw [losesTrailing]
  cases there : nodes[place + 1]? with
  | none => exact last
  | some node =>
      obtain ⟨mark, inNode, inMark⟩ := exists_mark_of_trimsBefore node
      have member := marks_subset_marksNodes (List.mem_of_getElem? there)
      exact flagged mark (member inNode) _ inMark

end Flagged

section Trims

variable {same : String → String → Prop} {allowed : Bool → Prop} (never : allowed false)
  (trims : ∀ start stop, allowed start → allowed stop →
    ∀ text, same text (trimEnds start stop text))

include never trims

/-- Trimming respells by a measure that takes no account of what allowed marks drop. -/
theorem respelled_trimTexts
    {nodes : List Node} (flagged : Flagged allowed nodes) {leading trailing : Nat → Bool}
    (leadingAllowed : ∀ place, allowed (leading place))
    (trailingAllowed : ∀ place, allowed (trailing place)) :
    Respelled same nodes (trimTexts leading trailing (trimmedEach nodes)) := by
  induction nodes using siblings_induction generalizing leading trailing with
  | nil => exact .nil
  | text content span rest inductionHypothesis =>
      have here := trims _ _ (leadingAllowed 0) (trailingAllowed 0) content
      have later := inductionHypothesis flagged.rest (fun place => leadingAllowed (place + 1))
        fun place => trailingAllowed (place + 1)
      rw [trimmedEach, trimmed, trimTexts_text]
      split
      · rename_i empty
        rw [String.isEmpty_iff.mp empty] at here
        exact .drop span here later
      · exact .text span here later
  | expression _ _ _ _ _ inductionHypothesis | comment _ _ _ _ inductionHypothesis
  | partialTag _ _ _ _ _ inductionHypothesis =>
      rw [trimmedEach, trimmed, trimTexts_tag]
      · apply Respelled.keep
        exact inductionHypothesis flagged.rest (fun place => leadingAllowed (place + 1))
          fun place => trailingAllowed (place + 1)
      · intro _ _ same
        cases same
  | block tags body inverse rest bodyHypothesis inverseHypothesis restHypothesis =>
      have later := restHypothesis flagged.rest (fun place => leadingAllowed (place + 1))
        fun place => trailingAllowed (place + 1)
      obtain ⟨opening, closing, middle, inBody, inInverse⟩ := flagged.sections
      rw [trimmedEach, trimmed, trimTexts_tag]
      · refine .block tags ?_ ?_ ?_ later
        · apply bodyHypothesis inBody (allowed_losesLeading inBody never opening)
          apply allowed_losesTrailing inBody
          split
          · rename_i present
            exact (middle present).1
          · exact closing
        · cases inverse <;> rfl
        · cases inverse with
          | none => exact .nil
          | some nodes =>
              exact inverseHypothesis inInverse
                (allowed_losesLeading inInverse never (middle rfl).2)
                (allowed_losesTrailing inInverse closing)
      · intro _ _ same
        cases same

end Trims

end Node

namespace Document

/-- Whether no tag of a document has a trim mark. -/
def Unmarked (document : Document) : Prop :=
  ∀ mark ∈ document.marks, true ∉ mark.flags

theorem Unmarked.flagged {document : Document} (unmarked : document.Unmarked) :
    Node.Flagged (fun flag => flag = false) document.nodes := by
  intro mark member flag inMark
  cases flag with
  | false => rfl
  | true => exact absurd inMark (unmarked mark member)

/-- Trimming changes no mark but texts. -/
theorem respelled_collapseWhitespace
    {same : String → String → Prop} {allowed : Bool → Prop} (never : allowed false)
    (trims : ∀ start stop, allowed start → allowed stop →
      ∀ text, same text (trimEnds start stop text))
    {document : Document} (flagged : Node.Flagged allowed document.nodes) :
    Node.Respelled same document.nodes document.collapseWhitespace.nodes := by
  rw [collapseWhitespace_eq_trimmed]
  apply Node.respelled_trimTexts never trims flagged
  · exact Node.allowed_losesLeading flagged never never
  · exact Node.allowed_losesTrailing flagged never

theorem respelled_collapseWhitespace_any (document : Document) :
    Node.Respelled (fun _ _ => True) document.nodes document.collapseWhitespace.nodes := by
  apply @respelled_collapseWhitespace _ fun _ => True
  · exact trivial
  · exact fun _ _ _ _ _ => trivial
  · exact fun _ _ _ _ => trivial

theorem filterMap_marks_collapseWhitespace
    (document : Document) {α : Type} {tell : Mark → Option α}
    (silent : ∀ mark, mark.isText = true → tell mark = none) :
    document.collapseWhitespace.marks.filterMap tell = document.marks.filterMap tell :=
  document.respelled_collapseWhitespace_any.filterMap_marksNodes silent

end Document

end Stencil
