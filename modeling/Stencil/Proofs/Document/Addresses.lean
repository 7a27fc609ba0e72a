import Stencil.Proofs.Document.Visits

/-!
Addresses of the nodes of a document: each leads down through the sections of the blocks around
the node. In the order of addresses a block comes before what is in it, its body comes before
its inverse section, and siblings come from left to right. A walk visits every address once, in
that order.
-/

namespace Stencil

/-- Where a node stands among siblings: it is one of them, or it stands in the body or in the
inverse section of one of them. -/
inductive Address where
  | sibling (index : Nat)
  | body (index : Nat) (inner : Address)
  | inverse (index : Nat) (inner : Address)
deriving DecidableEq, Repr

namespace Address

/-- The sibling that is the node, or that the node stands in. -/
def index : Address → Nat
  | .sibling index => index
  | .body index _ => index
  | .inverse index _ => index

def find? : Address → List Node → Option Node
  | .sibling index, siblings => siblings[index]?
  | .body index inner, siblings =>
      match siblings[index]? with
      | some (.block _ nodes _) => inner.find? nodes
      | _ => none
  | .inverse index inner, siblings =>
      match siblings[index]? with
      | some (.block _ _ (some nodes)) => inner.find? nodes
      | _ => none

/-- Whether one address comes first in the order of a source. -/
inductive Before : Address → Address → Prop
  | sibling {first second : Address} :
      first.index < second.index →
      Before first second
  | ownBody {index : Nat} {inner : Address} :
      Before (.sibling index) (.body index inner)
  | ownInverse {index : Nat} {inner : Address} :
      Before (.sibling index) (.inverse index inner)
  | sections {index : Nat} {first second : Address} :
      Before (.body index first) (.inverse index second)
  | body {index : Nat} {first second : Address} :
      Before first second →
      Before (.body index first) (.body index second)
  | inverse {index : Nat} {first second : Address} :
      Before first second →
      Before (.inverse index first) (.inverse index second)

theorem Before.ne {first second : Address} (before : first.Before second) :
    first ≠ second := by
  induction before with
  | sibling lower =>
      rintro rfl
      exact absurd lower (Nat.lt_irrefl _)
  | ownBody | ownInverse | sections => exact Address.noConfusion
  | body _ inductionHypothesis => exact fun same => inductionHypothesis (body.inj same).2
  | inverse _ inductionHypothesis => exact fun same => inductionHypothesis (inverse.inj same).2

/-- The address of the same node when one more sibling comes first. -/
def next : Address → Address
  | .sibling index => .sibling (index + 1)
  | .body index inner => .body (index + 1) inner
  | .inverse index inner => .inverse (index + 1) inner

private theorem index_next (address : Address) :
    address.next.index = address.index + 1 := by
  cases address <;> rfl

private theorem find?_next (address : Address) (node : Node) (rest : List Node) :
    address.next.find? (node :: rest) = address.find? rest := by
  cases address <;> rfl

private theorem find?_nil (address : Address) :
    address.find? [] = none := by
  cases address <;> rfl

theorem Before.next {first second : Address} (before : first.Before second) :
    first.next.Before second.next := by
  cases before with
  | sibling lower =>
      refine .sibling ?_
      rw [index_next, index_next]
      exact Nat.succ_lt_succ lower
  | ownBody => exact .ownBody
  | ownInverse => exact .ownInverse
  | sections => exact .sections
  | body before => exact .body before
  | inverse before => exact .inverse before

@[simp] theorem next_inj {first second : Address} :
    first.next = second.next ↔ first = second := by
  cases first <;> cases second <;> simp [next]

@[simp] theorem next_ne_sibling_zero (address : Address) :
    address.next ≠ .sibling 0 := by
  cases address <;> simp [next]

@[simp] theorem next_ne_body_zero (address inner : Address) :
    address.next ≠ .body 0 inner := by
  cases address <;> simp [next]

@[simp] theorem next_ne_inverse_zero (address inner : Address) :
    address.next ≠ .inverse 0 inner := by
  cases address <;> simp [next]

private theorem before_next_of_index {first : Address} (head : first.index = 0) (second : Address) :
    first.Before second.next := by
  refine .sibling ?_
  rw [head, index_next]
  exact Nat.succ_pos _

private theorem find?_body_block
    (tags : BlockTags) (body : List Node) (inverse : Option (List Node)) (rest : List Node)
    (inner : Address) :
    (Address.body 0 inner).find? (.block tags body inverse :: rest) = inner.find? body := rfl

private theorem find?_inverse_block
    (tags : BlockTags) (body : List Node) (inverse : Option (List Node)) (rest : List Node)
    (inner : Address) :
    (Address.inverse 0 inner).find? (.block tags body inverse :: rest) =
      inner.find? (inverse.getD []) := by
  cases inverse with
  | none =>
      rw [Option.getD_none, find?_nil]
      rfl
  | some nodes => rfl

private theorem cases_first (address : Address) :
    address = .sibling 0 ∨ (∃ inner, address = .body 0 inner) ∨
      (∃ inner, address = .inverse 0 inner) ∨ ∃ earlier : Address, address = earlier.next := by
  cases address with
  | sibling index =>
      cases index with
      | zero => exact .inl rfl
      | succ index => exact .inr (.inr (.inr ⟨.sibling index, rfl⟩))
  | body index inner =>
      cases index with
      | zero => exact .inr (.inl ⟨inner, rfl⟩)
      | succ index => exact .inr (.inr (.inr ⟨.body index inner, rfl⟩))
  | inverse index inner =>
      cases index with
      | zero => exact .inr (.inr (.inl ⟨inner, rfl⟩))
      | succ index => exact .inr (.inr (.inr ⟨.inverse index inner, rfl⟩))

end Address

/-! ## All addresses -/

namespace Node

mutual

def addresses : Node → List Address
  | .block _ body inverse =>
      .sibling 0 :: ((addressesNodes body).map (Address.body 0) ++
        (addressesInverse inverse).map (Address.inverse 0))
  | .text .. | .expression .. | .comment .. | .partialTag .. => [.sibling 0]
termination_by structural node => node

def addressesNodes : List Node → List Address
  | [] => []
  | node :: rest => addresses node ++ (addressesNodes rest).map Address.next
termination_by structural nodes => nodes

def addressesInverse : Option (List Node) → List Address
  | none => []
  | some nodes => addressesNodes nodes
termination_by structural inverse => inverse

end

private theorem addressesNodes_cons_leaf
    {node : Node} (leaf : node.marks = [.leaf node]) (rest : List Node) :
    addressesNodes (node :: rest) = .sibling 0 :: (addressesNodes rest).map Address.next := by
  cases node with
  | text | expression | comment | partialTag => rfl
  | block => exact absurd leaf (marks_block_ne_leaf _ _ _ _)

private theorem addressesNodes_cons_block
    (tags : BlockTags) (body : List Node) (inverse : Option (List Node)) (rest : List Node) :
    addressesNodes (.block tags body inverse :: rest) =
      .sibling 0 :: ((addressesNodes body).map (Address.body 0) ++
        (addressesNodes (inverse.getD [])).map (Address.inverse 0) ++
        (addressesNodes rest).map Address.next) := by
  cases inverse <;> simp [addressesNodes, addresses, addressesInverse]

private theorem find?_within_leaf
    {node : Node} (leaf : node.marks = [.leaf node]) (rest : List Node) (inner : Address) :
    (Address.body 0 inner).find? (node :: rest) = none ∧
      (Address.inverse 0 inner).find? (node :: rest) = none := by
  cases node with
  | text | expression | comment | partialTag => exact ⟨rfl, rfl⟩
  | block => exact absurd leaf (marks_block_ne_leaf _ _ _ _)

private theorem map_find?_map_next (node : Node) (rest : List Node) (addresses : List Address) :
    (addresses.map Address.next).map (Address.find? · (node :: rest)) =
      addresses.map (Address.find? · rest) := by
  rw [List.map_map]
  exact List.map_congr_left fun address _ => address.find?_next node rest

/-- No address comes twice, and they come in the order of a source. -/
theorem pairwise_before_addressesNodes (nodes : List Node) :
    (addressesNodes nodes).Pairwise Address.Before := by
  induction nodes using leaves_induction with
  | nil => exact .nil
  | leaf node rest leaf inductionHypothesis =>
      rw [addressesNodes_cons_leaf leaf, List.pairwise_cons, List.forall_mem_map]
      refine ⟨fun later _ => Address.before_next_of_index rfl later, ?_⟩
      exact inductionHypothesis.map _ fun _ _ => Address.Before.next
  | block tags body inverse rest bodyHypothesis inverseHypothesis restHypothesis =>
      rw [addressesNodes_cons_block, List.pairwise_cons, List.pairwise_append,
        List.pairwise_append]
      simp only [List.mem_append, List.mem_map]
      -- The block stands before all others, its body before its inverse section, and both of
      -- them before the siblings that follow.
      refine ⟨?_, ⟨?_, ?_, ?_⟩, ?_, ?_⟩
      · rintro _ ((⟨inner, _, rfl⟩ | ⟨inner, _, rfl⟩) | ⟨later, _, rfl⟩)
        · exact .ownBody
        · exact .ownInverse
        · exact Address.before_next_of_index rfl later
      · exact bodyHypothesis.map _ fun _ _ => Address.Before.body
      · exact inverseHypothesis.map _ fun _ _ => Address.Before.inverse
      · rintro _ ⟨first, _, rfl⟩ _ ⟨second, _, rfl⟩
        exact .sections
      · exact restHypothesis.map _ fun _ _ => Address.Before.next
      · rintro _ (⟨inner, _, rfl⟩ | ⟨inner, _, rfl⟩) _ ⟨later, _, rfl⟩
        · exact Address.before_next_of_index rfl later
        · exact Address.before_next_of_index rfl later

theorem map_find?_addressesNodes (nodes : List Node) :
    (addressesNodes nodes).map (Address.find? · nodes) = (visited nodes).map some := by
  induction nodes using leaves_induction with
  | nil => rfl
  | leaf node rest leaf inductionHypothesis =>
      rw [addressesNodes_cons_leaf leaf, visited_cons_leaf leaf, List.map_cons, List.map_cons,
        map_find?_map_next, inductionHypothesis]
      rfl
  | block tags body inverse rest bodyHypothesis inverseHypothesis restHypothesis =>
      have inBody :
          ((addressesNodes body).map (Address.body 0)).map
            (Address.find? · (.block tags body inverse :: rest)) = (visited body).map some := by
        rw [List.map_map, ← bodyHypothesis]
        rfl
      have inInverse :
          ((addressesNodes (inverse.getD [])).map (Address.inverse 0)).map
            (Address.find? · (.block tags body inverse :: rest)) =
              (visited (inverse.getD [])).map some := by
        rw [List.map_map, ← inverseHypothesis]
        exact List.map_congr_left fun inner _ =>
          Address.find?_inverse_block tags body inverse rest inner
      rw [addressesNodes_cons_block, visited_cons_block, List.map_cons, List.map_cons,
        List.map_append, List.map_append, List.map_append, List.map_append, inBody, inInverse,
        map_find?_map_next, restHypothesis]
      rfl

/-- All places where a node stands are among the addresses, and no others. -/
theorem mem_addressesNodes_iff {nodes : List Node} {address : Address} :
    address ∈ addressesNodes nodes ↔ (address.find? nodes).isSome = true := by
  -- An address leads to the first sibling, into one of its sections, or past it.
  induction nodes using leaves_induction generalizing address with
  | nil => simp [addressesNodes, Address.find?_nil]
  | leaf node rest leaf inductionHypothesis =>
      rw [addressesNodes_cons_leaf leaf, List.mem_cons]
      rcases address.cases_first with rfl | ⟨inner, rfl⟩ | ⟨inner, rfl⟩ | ⟨earlier, rfl⟩
      · exact ⟨fun _ => rfl, fun _ => .inl rfl⟩
      · rw [(find?_within_leaf leaf rest inner).1]
        simp
      · rw [(find?_within_leaf leaf rest inner).2]
        simp
      · rw [Address.find?_next, ← inductionHypothesis]
        simp
  | block tags body inverse rest bodyHypothesis inverseHypothesis restHypothesis =>
      rw [addressesNodes_cons_block, List.mem_cons, List.mem_append, List.mem_append]
      rcases address.cases_first with rfl | ⟨inner, rfl⟩ | ⟨inner, rfl⟩ | ⟨earlier, rfl⟩
      · exact ⟨fun _ => rfl, fun _ => .inl rfl⟩
      · rw [Address.find?_body_block, ← bodyHypothesis]
        simp
      · rw [Address.find?_inverse_block, ← inverseHypothesis]
        simp
      · rw [Address.find?_next, ← restHypothesis]
        simp [@eq_comm _ _ earlier.next]

end Node

def Document.addresses (document : Document) : List Address :=
  Node.addressesNodes document.nodes

end Stencil
