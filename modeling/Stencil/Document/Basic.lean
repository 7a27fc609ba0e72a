import Stencil.Path.Basic
import Stencil.Token.Basic

/-!
Documents: the trees that templates are read into. A block holds a body and may hold an inverse
section; every tag keeps its trim marks and its place.
-/

namespace Stencil

/-- The tags of a block: the helper and its argument from the opening tag, the trim marks of the
opening, the middle and the closing tag, and the place of the opening tag. Without an inverse
section there is no middle tag and its marks are unused. -/
structure BlockTags where
  helper : String
  argument : Path
  opening : Trim
  middle : Trim
  closing : Trim
  span : Span
deriving DecidableEq, Repr, Inhabited

inductive Node where
  | text (content : String) (span : Span)
  | expression (path : Path) (escaped : Bool) (trim : Trim) (span : Span)
  | comment (content : String) (trim : Trim) (span : Span)
  | block (tags : BlockTags) (body : List Node) (inverse : Option (List Node))
  | partialTag (name : String) (scope : Option Path) (trim : Trim) (span : Span)
deriving Repr, Inhabited

structure Document where
  nodes : List Node
deriving Repr, Inhabited

namespace Node

/-- The place of a node; that of a block is its opening tag. -/
def span : Node → Span
  | .text _ span => span
  | .expression _ _ _ span => span
  | .comment _ _ span => span
  | .block tags _ _ => tags.span
  | .partialTag _ _ _ span => span

/-- Whether a node drops the blanks before it. -/
def trimsBefore : Node → Bool
  | .text _ _ => false
  | .expression _ _ trim _ => trim.left
  | .comment _ trim _ => trim.left
  | .block tags _ _ => tags.opening.left
  | .partialTag _ _ trim _ => trim.left

def trimsAfter : Node → Bool
  | .text _ _ => false
  | .expression _ _ trim _ => trim.right
  | .comment _ trim _ => trim.right
  | .block tags _ _ => tags.closing.right
  | .partialTag _ _ trim _ => trim.right

/-- Induction on sibling nodes: the hypotheses for a block are about both of its sections and
about the nodes after it. A missing inverse section counts as an empty one. -/
@[elab_as_elim]
theorem siblings_induction {motive : List Node → Prop}
    (nil : motive [])
    (text : ∀ content span rest, motive rest → motive (.text content span :: rest))
    (expression : ∀ path escaped trim span rest, motive rest →
      motive (.expression path escaped trim span :: rest))
    (comment : ∀ content trim span rest, motive rest →
      motive (.comment content trim span :: rest))
    (block : ∀ tags body inverse rest, motive body → motive (inverse.getD []) → motive rest →
      motive (.block tags body inverse :: rest))
    (partialTag : ∀ name scope trim span rest, motive rest →
      motive (.partialTag name scope trim span :: rest)) :
    ∀ nodes, motive nodes
  | [] => nil
  | .text content span :: rest =>
      text content span rest
        (siblings_induction nil text expression comment block partialTag rest)
  | .expression path escaped trim span :: rest =>
      expression path escaped trim span rest
        (siblings_induction nil text expression comment block partialTag rest)
  | .comment content trim span :: rest =>
      comment content trim span rest
        (siblings_induction nil text expression comment block partialTag rest)
  | .block tags body none :: rest =>
      block tags body none rest
        (siblings_induction nil text expression comment block partialTag body) nil
        (siblings_induction nil text expression comment block partialTag rest)
  | .block tags body (some inverse) :: rest =>
      block tags body (some inverse) rest
        (siblings_induction nil text expression comment block partialTag body)
        (siblings_induction nil text expression comment block partialTag inverse)
        (siblings_induction nil text expression comment block partialTag rest)
  | .partialTag name scope trim span :: rest =>
      partialTag name scope trim span rest
        (siblings_induction nil text expression comment block partialTag rest)

mutual

def decEq : (first second : Node) → Decidable (first = second)
  | .text content span, .text content' span' =>
      decidable_of_iff (content = content' ∧ span = span') (by simp)
  | .expression path escaped trim span, .expression path' escaped' trim' span' =>
      decidable_of_iff (path = path' ∧ escaped = escaped' ∧ trim = trim' ∧ span = span')
        (by simp)
  | .comment content trim span, .comment content' trim' span' =>
      decidable_of_iff (content = content' ∧ trim = trim' ∧ span = span') (by simp)
  | .block tags body inverse, .block tags' body' inverse' =>
      if sameTags : tags = tags' then
        match decEqNodes body body', decEqInverse inverse inverse' with
        | .isTrue sameBody, .isTrue sameInverse =>
            .isTrue (by rw [sameTags, sameBody, sameInverse])
        | .isFalse otherBody, _ => .isFalse (by simp [otherBody])
        | _, .isFalse otherInverse => .isFalse (by simp [otherInverse])
      else
        .isFalse (by simp [sameTags])
  | .partialTag name scope trim span, .partialTag name' scope' trim' span' =>
      decidable_of_iff (name = name' ∧ scope = scope' ∧ trim = trim' ∧ span = span') (by simp)
  | .text .., .expression .. | .text .., .comment .. | .text .., .block ..
  | .text .., .partialTag .. | .expression .., .text .. | .expression .., .comment ..
  | .expression .., .block .. | .expression .., .partialTag .. | .comment .., .text ..
  | .comment .., .expression .. | .comment .., .block .. | .comment .., .partialTag ..
  | .block .., .text .. | .block .., .expression .. | .block .., .comment ..
  | .block .., .partialTag .. | .partialTag .., .text .. | .partialTag .., .expression ..
  | .partialTag .., .comment .. | .partialTag .., .block .. => .isFalse (by simp)
termination_by structural first => first

def decEqNodes : (first second : List Node) → Decidable (first = second)
  | [], [] => .isTrue rfl
  | [], _ :: _ | _ :: _, [] => .isFalse (by simp)
  | node :: rest, node' :: rest' =>
      match decEq node node', decEqNodes rest rest' with
      | .isTrue sameNode, .isTrue sameRest => .isTrue (by rw [sameNode, sameRest])
      | .isFalse otherNode, _ => .isFalse (by simp [otherNode])
      | _, .isFalse otherRest => .isFalse (by simp [otherRest])
termination_by structural first => first

def decEqInverse : (first second : Option (List Node)) → Decidable (first = second)
  | none, none => .isTrue rfl
  | none, some _ | some _, none => .isFalse (by simp)
  | some nodes, some nodes' =>
      match decEqNodes nodes nodes' with
      | .isTrue same => .isTrue (by rw [same])
      | .isFalse other => .isFalse (by simp [other])
termination_by structural first => first

end

instance : DecidableEq Node := decEq

end Node

namespace Document

deriving instance DecidableEq for Document

def isEmpty (document : Document) : Bool :=
  document.nodes.isEmpty

end Document

end Stencil
