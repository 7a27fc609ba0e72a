import Stencil.Proofs.Document.Trimming
import Stencil.Proofs.Document.Writing

/-!
Trimming twice. Where no run of text stands next to another, every text that is left keeps its
neighbours, or its place at the edge of its section, when other texts leave; so the rule asks for
the same trimming again, and there is nothing left to trim.
-/

namespace Stencil

namespace Node

mutual

/-- The sections of the blocks in a node, at any depth. -/
def sections : Node → List (List Node)
  | .block _ body inverse => body :: (sectionsNodes body ++ sectionsInverse inverse)
  | .text .. | .expression .. | .comment .. | .partialTag .. => []
termination_by structural node => node

def sectionsNodes : List Node → List (List Node)
  | [] => []
  | node :: rest => sections node ++ sectionsNodes rest
termination_by structural nodes => nodes

def sectionsInverse : Option (List Node) → List (List Node)
  | none => []
  | some nodes => nodes :: sectionsNodes nodes
termination_by structural inverse => inverse

end

/-- No run of text stands next to another, among siblings and in the blocks among them. -/
def SeparatedWithin (nodes : List Node) : Prop :=
  ∀ siblings ∈ nodes :: sectionsNodes nodes, Separated siblings

theorem separatedWithin_nil : SeparatedWithin [] := by
  simp [SeparatedWithin, sectionsNodes, Separated]

theorem separatedWithin_cons_iff {node : Node} {rest : List Node} :
    SeparatedWithin (node :: rest) ↔
      (∀ next, rest.head? = some next → ¬ (node.isText = true ∧ next.isText = true)) ∧
        (∀ siblings ∈ node.sections, Separated siblings) ∧ SeparatedWithin rest := by
  simp only [SeparatedWithin, sectionsNodes, List.forall_mem_cons, List.forall_mem_append,
    Separated]
  cases rest with
  | nil => simp
  | cons next others =>
      rw [List.isChain_cons_cons, List.head?_cons]
      simp only [Option.some.injEq, forall_eq']
      tauto

theorem forall_mem_sections_block_iff
    {tags : BlockTags} {body : List Node} {inverse : Option (List Node)} :
    (∀ siblings ∈ (Node.block tags body inverse).sections, Separated siblings) ↔
      SeparatedWithin body ∧ SeparatedWithin (inverse.getD []) := by
  cases inverse with
  | none =>
      rw [Option.getD_none, and_iff_left separatedWithin_nil, sections, sectionsInverse,
        List.append_nil, SeparatedWithin]
  | some nodes =>
      simp only [sections, sectionsInverse, ← List.cons_append, List.forall_mem_append,
        Option.getD_some, SeparatedWithin]

/-- A section trimmed by the rule, between two tags that trim it or not. -/
def trimmedSection (start stop : Bool) (nodes : List Node) : List Node :=
  trimTexts (losesLeading start nodes) (losesTrailing stop nodes) (trimmedEach nodes)

/-- Whether the blanks right before some siblings are dropped: the first of them tells, and where
there is none the tag behind the section. -/
def trimsAhead (stop : Bool) (nodes : List Node) : Bool :=
  (nodes.head?.map trimsBefore).getD stop

theorem trimmed_block
    (tags : BlockTags) (body : List Node) (inverse : Option (List Node)) :
    (Node.block tags body inverse).trimmed =
      .block tags
        (trimmedSection tags.opening.right
          (if inverse.isSome then tags.middle.left else tags.closing.left) body)
        (inverse.map (trimmedSection tags.middle.right tags.closing.left)) := by
  rw [trimmed]
  cases inverse with
  | none => rw [trimmedInverse, Option.map_none, trimmedSection]
  | some nodes => rw [trimmedInverse, Option.map_some, trimmedSection, trimmedSection]

private theorem losesLeading_cons_succ (start : Bool) (node : Node) (rest : List Node) :
    (fun place => losesLeading start (node :: rest) (place + 1)) =
      losesLeading node.trimsAfter rest := by
  funext place
  cases place with
  | zero => simp [losesLeading]
  | succ before => simp [losesLeading]

private theorem losesTrailing_cons_succ (stop : Bool) (node : Node) (rest : List Node) :
    (fun place => losesTrailing stop (node :: rest) (place + 1)) = losesTrailing stop rest := by
  funext place
  simp [losesTrailing]

private theorem losesTrailing_cons_zero (stop : Bool) (node : Node) (rest : List Node) :
    losesTrailing stop (node :: rest) 0 = trimsAhead stop rest := by
  cases rest with
  | nil => simp [losesTrailing, trimsAhead]
  | cons next others => simp [losesTrailing, trimsAhead]

theorem trimmedSection_nil (start stop : Bool) : trimmedSection start stop [] = [] := by
  simp [trimmedSection, trimmedEach, trimTexts]

theorem trimmedSection_text
    (start stop : Bool) (content : String) (span : Span) (rest : List Node) :
    trimmedSection start stop (.text content span :: rest) =
      if (trimEnds start (trimsAhead stop rest) content).isEmpty then
        trimmedSection false stop rest
      else
        .text (trimEnds start (trimsAhead stop rest) content) span ::
          trimmedSection false stop rest := by
  rw [trimmedSection, trimmedEach, trimmed, trimTexts_text, losesLeading_cons_succ,
    losesTrailing_cons_succ, losesTrailing_cons_zero, losesLeading, trimsAfter, trimmedSection]

private theorem isText_eq_false_iff {node : Node} :
    node.isText = false ↔ ∀ content span, node ≠ .text content span := by
  cases node <;> simp [isText]

private theorem isText_trimmed (node : Node) : node.trimmed.isText = node.isText := by
  cases node <;> simp [trimmed, isText]

private theorem trimsBefore_trimmed (node : Node) :
    node.trimmed.trimsBefore = node.trimsBefore := by
  cases node <;> simp [trimmed, trimsBefore]

private theorem trimsAfter_trimmed (node : Node) : node.trimmed.trimsAfter = node.trimsAfter := by
  cases node <;> simp [trimmed, trimsAfter]

theorem trimmedSection_tag
    (start stop : Bool) {node : Node} (tag : node.isText = false) (rest : List Node) :
    trimmedSection start stop (node :: rest) =
      node.trimmed :: trimmedSection node.trimsAfter stop rest := by
  have tag' : node.trimmed.isText = false := by rw [isText_trimmed, tag]
  rw [trimmedSection, trimmedEach, trimTexts_tag _ _ (isText_eq_false_iff.mp tag'),
    losesLeading_cons_succ, losesTrailing_cons_succ, trimmedSection]

def StartsWithTag (nodes : List Node) : Prop :=
  ∀ node, nodes.head? = some node → node.isText = false

section StartsWithTag

variable {nodes : List Node} (tagged : StartsWithTag nodes)

include tagged

/-- A tag at the start of a section leaves the mark before the section nothing to trim. -/
theorem trimmedSection_of_startsWithTag (start other stop : Bool) :
    trimmedSection start stop nodes = trimmedSection other stop nodes := by
  cases nodes with
  | nil => rw [trimmedSection_nil, trimmedSection_nil]
  | cons node rest =>
      have tag : node.isText = false := tagged node List.head?_cons
      rw [trimmedSection_tag start stop tag, trimmedSection_tag other stop tag]

private theorem trimsAhead_trimmedSection (start stop : Bool) :
    trimsAhead stop (trimmedSection start stop nodes) = trimsAhead stop nodes := by
  cases nodes with
  | nil => rw [trimmedSection_nil]
  | cons node rest =>
      have tag : node.isText = false := tagged node List.head?_cons
      rw [trimmedSection_tag start stop tag, trimsAhead, trimsAhead, List.head?_cons,
        List.head?_cons, Option.map_some, Option.map_some, trimsBefore_trimmed]

end StartsWithTag

/-- A trimmed section is left alone by the rule. -/
theorem trimmedSection_trimmedSection
    {nodes : List Node} (separated : SeparatedWithin nodes) (start stop : Bool) :
    trimmedSection start stop (trimmedSection start stop nodes) =
      trimmedSection start stop nodes := by
  -- What is around a section is generalised: the tag before it may be any sibling before `nodes`.
  induction nodes using siblings_induction generalizing start stop with
  | nil => rw [trimmedSection_nil, trimmedSection_nil]
  | text content span rest inductionHypothesis =>
      obtain ⟨apart, _, restSeparated⟩ := separatedWithin_cons_iff.mp separated
      have tagged : StartsWithTag rest := by
        intro next first
        by_cases text : next.isText = true
        · exact absurd ⟨rfl, text⟩ (apart next first)
        · exact Bool.eq_false_iff.mpr text
      have settled := inductionHypothesis restSeparated
      by_cases empty : (trimEnds start (trimsAhead stop rest) content).isEmpty = true
      · -- The text leaves, and the tag after it comes first.
        rw [trimmedSection_text, if_pos empty,
          trimmedSection_of_startsWithTag tagged false start stop]
        exact settled start stop
      · have again : trimEnds start (trimsAhead stop rest)
            (trimEnds start (trimsAhead stop rest) content) =
              trimEnds start (trimsAhead stop rest) content := by
          rw [trimEnds_trimEnds, Bool.or_self, Bool.or_self]
        rw [trimmedSection_text, if_neg empty, trimmedSection_text,
          trimsAhead_trimmedSection tagged, again, if_neg empty, settled false stop]
  | expression _ _ _ _ rest inductionHypothesis | comment _ _ _ rest inductionHypothesis
  | partialTag _ _ _ _ rest inductionHypothesis =>
      obtain ⟨_, _, restSeparated⟩ := separatedWithin_cons_iff.mp separated
      rw [trimmedSection_tag start stop (by simp [isText]), trimmed,
        trimmedSection_tag start stop (by simp [isText]), trimmed,
        inductionHypothesis restSeparated]
  | block tags body inverse rest bodyHypothesis inverseHypothesis restHypothesis =>
      obtain ⟨_, within, restSeparated⟩ := separatedWithin_cons_iff.mp separated
      obtain ⟨bodySeparated, inverseSeparated⟩ := forall_mem_sections_block_iff.mp within
      have inverses : (inverse.map (trimmedSection tags.middle.right tags.closing.left)).map
          (trimmedSection tags.middle.right tags.closing.left) =
            inverse.map (trimmedSection tags.middle.right tags.closing.left) := by
        cases inverse with
        | none => rw [Option.map_none, Option.map_none]
        | some nodes =>
            rw [Option.map_some, Option.map_some]
            exact congrArg some (inverseHypothesis inverseSeparated _ _)
      have settled : (Node.block tags body inverse).trimmed.trimmed =
          (Node.block tags body inverse).trimmed := by
        rw [trimmed_block, trimmed_block, inverses, Option.isSome_map,
          bodyHypothesis bodySeparated]
      rw [trimmedSection_tag start stop (by simp [isText]),
        trimmedSection_tag start stop (by rw [isText_trimmed]; simp [isText]), settled,
        trimsAfter_trimmed, restHypothesis restSeparated]

end Node

namespace Document

def Separated (document : Document) : Prop :=
  Node.SeparatedWithin document.nodes

theorem collapseWhitespace_eq_trimmedSection (document : Document) :
    document.collapseWhitespace = ⟨Node.trimmedSection false false document.nodes⟩ := by
  rw [collapseWhitespace_eq_trimmed, trimmed, Node.trimmedSection]

theorem Separated.collapseWhitespace_collapseWhitespace
    {document : Document} (separated : document.Separated) :
    document.collapseWhitespace.collapseWhitespace = document.collapseWhitespace := by
  rw [collapseWhitespace_eq_trimmedSection, collapseWhitespace_eq_trimmedSection]
  exact congrArg Document.mk (Node.trimmedSection_trimmedSection separated false false)

end Document

end Stencil
