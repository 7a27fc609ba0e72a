import Stencil.Proofs.Document.Addresses
import Stencil.Proofs.Document.PartialNames
import Stencil.Proofs.Document.Visitor
import Stencil.Proofs.Reading.Strict
import Stencil.Proofs.Token.Place

/-!
The order of walks. Every walk over a document stops at each of its nodes once, in the order of
their addresses, and at the path in the tag of a node right after the node; the names of partials
are gathered as such a walk comes across them. In a document that was read without a fault, that
is the order in which the tags stand in the source.
-/

namespace Stencil

namespace Grammar

private theorem Leaf.span_eq
    {token : Token} {node : Node} (leaf : Leaf token node) :
    node.span = token.span := by
  cases leaf <;> rfl

/-- Each node that a walk visits is at the place of a token of its own, in the order of the
tokens. -/
theorem Section.span_sublist
    {table : BlockTable} {tokens : List Token} {nodes : List Node}
    (derived : Section table tokens nodes) :
    ((Node.visited nodes).map Node.span).Sublist (tokens.map Token.span) := by
  induction derived with
  | nil => exact .refl _
  | leaf leaf _ inductionHypothesis =>
      rw [Node.visited_cons_leaf (Token.marks_of_leaf? leaf.leaf?_eq), List.map_cons,
        List.map_cons, leaf.span_eq]
      exact inductionHypothesis.cons_cons _
  | block _ _ _ _ bodyHypothesis restHypothesis =>
      rw [Node.visited_cons_block, List.map_cons, List.map_cons, List.map_append,
        List.map_append, List.map_append, List.map_cons, Option.getD_none, Node.visited_nil,
        List.map_nil, List.append_nil]
      exact (bodyHypothesis.append (restHypothesis.cons _)).cons_cons _
  | @dividedBlock _ middle closing _ _ _ _ _ _ _ _ _ _ _ _ _ _ bodyHypothesis
      inverseHypothesis restHypothesis =>
      rw [Node.visited_cons_block, List.map_cons, List.map_cons, List.map_append,
        List.map_append, List.map_append, List.map_cons, List.map_append, List.map_cons,
        Option.getD_some, List.append_assoc]
      have behind := inverseHypothesis.append (restHypothesis.cons closing.span)
      exact (bodyHypothesis.append (behind.cons middle.span)).cons_cons _

end Grammar

/-- Whether visits are those of a walk in the order of a source, with each node visited once. -/
structure Document.InSourceOrder (document : Document) (addresses : List Address)
    (visits : List Visit) : Prop where
  ordered : addresses.Pairwise Address.Before
  once : addresses.Nodup
  all : ∀ address, address ∈ addresses ↔ (address.find? document.nodes).isSome = true
  nodes : (visits.filterMap Visit.node?).map some =
    addresses.map (Address.find? · document.nodes)
  paths : visits.filterMap Visit.path? = (visits.filterMap Visit.node?).filterMap Node.path?
  stops : visits.filter Visit.isStop = (visits.filterMap Visit.node?).flatMap Node.stops

/-- Whether names are those in a list of uses, each once and in the order of first use. -/
structure FirstUses (names uses : List String) : Prop where
  erased : names = uses.eraseDups
  once : names.Nodup
  all : ∀ name, name ∈ names ↔ name ∈ uses
  ordered : names.Pairwise fun first second => uses.idxOf first < uses.idxOf second

namespace Document

private theorem inSourceOrder_visits (document : Document) :
    document.InSourceOrder document.addresses document.visits where
  ordered := Node.pairwise_before_addressesNodes document.nodes
  once := (Node.pairwise_before_addressesNodes document.nodes).imp Address.Before.ne
  all _ := Node.mem_addressesNodes_iff
  nodes := (Node.map_find?_addressesNodes document.nodes).symm
  paths := Node.filterMap_path?_visitsNodes document.nodes
  stops := Node.filter_isStop_visitsNodes document.nodes

private theorem mem_visited_iff {document : Document} {node : Node} :
    node ∈ document.visited ↔ ∃ address : Address, address.find? document.nodes = some node := by
  have listed : node ∈ document.visited ↔ some node ∈ document.visited.map some := by simp
  rw [listed, show document.visited.map some = _ from document.inSourceOrder_visits.nodes,
    List.mem_map]
  constructor
  · rintro ⟨address, _, found⟩
    exact ⟨address, found⟩
  · rintro ⟨address, found⟩
    refine ⟨address, Node.mem_addressesNodes_iff.mpr ?_, found⟩
    rw [found, Option.isSome_some]

private theorem firstUses_referencedPartials (document : Document) :
    FirstUses document.referencedPartials (document.visited.filterMap Node.partial?) := by
  rw [referencedPartials_eq_eraseDups]
  exact ⟨rfl, nodup_eraseDups _, fun _ => List.mem_eraseDups, pairwise_idxOf_eraseDups _⟩

private theorem mem_referencedPartials_iff {document : Document} {name : String} :
    name ∈ document.referencedPartials ↔
      ∃ (address : Address) (scope : Option Path) (trim : Trim) (span : Span),
        address.find? document.nodes = some (.partialTag name scope trim span) := by
  rw [document.firstUses_referencedPartials.all, List.mem_filterMap]
  constructor
  · rintro ⟨node, member, call⟩
    cases node with
    | text | expression | comment | block => exact nomatch call
    | partialTag called scope trim span =>
        obtain ⟨address, found⟩ := mem_visited_iff.mp member
        rw [← Option.some.inj call]
        exact ⟨address, scope, trim, span, found⟩
  · rintro ⟨address, scope, trim, span, found⟩
    exact ⟨_, mem_visited_iff.mpr ⟨address, found⟩, rfl⟩

private theorem pairwise_before_visited
    {table : BlockTable} {source : String} {document : Document}
    (short : byteLength source.toList < 2 ^ 32) (accepted : read table source = .ok document) :
    document.visited.Pairwise fun first second => first.span.start.Before second.span.start := by
  have tokens : ((Token.content source).map Token.span).Pairwise fun first second =>
      first.start.Before second.start := by
    rw [List.pairwise_map]
    exact Token.pairwise_before_content short
  have nodes := tokens.sublist (section_of_read accepted).span_sublist
  rw [List.pairwise_map] at nodes
  exact nodes

/-- All walks over a document agree: they stop at every node once, in the order of a source, and
each node is followed by the path in its tag. The partials that a document names are those that
walks come across, by their first uses. In a document read from a short source the visited nodes
stand one behind the other. -/
theorem walks_agree :
    (∀ document : Document,
      document.InSourceOrder document.addresses document.visits ∧
      (∀ (σ : Type) (visit : σ → Visit → σ) (state : σ),
        document.walk visit state = document.visits.foldl visit state) ∧
      (∀ (σ : Type) (visitor : Visitor σ) (hooks : Hooks σ), visitor.Defaults hooks →
        ∀ state, visitor.document document state = document.visits.foldl hooks.visit state) ∧
      FirstUses document.referencedPartials (document.visited.filterMap Node.partial?) ∧
      ∀ name, name ∈ document.referencedPartials ↔
        ∃ (address : Address) (scope : Option Path) (trim : Trim) (span : Span),
          address.find? document.nodes = some (.partialTag name scope trim span)) ∧
    ∀ (table : BlockTable) (source : String) (document : Document),
      byteLength source.toList < 2 ^ 32 → read table source = .ok document →
        document.visited.Pairwise fun first second =>
          first.span.start.Before second.span.start := by
  constructor
  · intro document
    refine ⟨document.inSourceOrder_visits, ?_, ?_, document.firstUses_referencedPartials, ?_⟩
    · intro σ visit state
      exact document.walk_eq_foldl visit state
    · intro σ visitor hooks defaults state
      exact defaults.document_eq_foldl document state
    · intro name
      exact mem_referencedPartials_iff
  · intro table source document short accepted
    exact pairwise_before_visited short accepted

/-- A visitor that gathers names goes through a block with two sections. -/
theorem walks_agree_divided :
    let source := Fault.tagText "> row" ++ Fault.tagText "#if x" ++ Fault.tagText "> head y" ++
      Fault.tagText "else" ++ Fault.tagText "> row" ++ Fault.tagText "/if"
    let tags : BlockTags :=
      ⟨"if", ⟨0, .context, ["x"]⟩, .unmarked, .unmarked, .unmarked, ⟨⟨1, 10⟩, 9⟩⟩
    let document : Document :=
      ⟨[.partialTag "row" none .unmarked ⟨⟨1, 1⟩, 9⟩,
        .block tags
          [.partialTag "head" (some ⟨0, .context, ["y"]⟩) .unmarked ⟨⟨1, 19⟩, 12⟩]
          (some [.partialTag "row" none .unmarked ⟨⟨1, 39⟩, 9⟩])]⟩
    let hooks : Hooks (List String) :=
      ⟨fun _ names => names, fun node names => names ++ node.partial?.toList,
        fun _ names => names, fun path names => names ++ [path.display]⟩
    byteLength source.toList < 2 ^ 32 ∧ read .builtin source = .ok document ∧
      hooks.visitor.Defaults hooks ∧
      hooks.visitor.document document [] = ["row", "x", "head", "y", "row"] ∧
      FirstUses ["row", "head"] ["row", "head", "row"] ∧
      document.visited.Pairwise fun first second =>
        first.span.start.Before second.span.start := by
  intro source tags document hooks
  have short : byteLength source.toList < 2 ^ 32 := by decide
  have accepted : read .builtin source = .ok document := by decide +kernel
  obtain ⟨walks, reading⟩ := walks_agree
  obtain ⟨_, _, visitors, uses, _⟩ := walks document
  have defaults := hooks.defaults_visitor
  have gathered := visitors _ hooks.visitor hooks defaults []
  exact ⟨short, accepted, defaults, gathered.trans (by decide +kernel), uses,
    reading .builtin source document short accepted⟩

end Document

end Stencil
