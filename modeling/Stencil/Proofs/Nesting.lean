import Mathlib.Data.List.Induction
import Mathlib.Data.List.Nodup
import Mathlib.Data.List.TakeWhile
import Stencil.BlockTable
import Stencil.Diagnostic.Fault
import Stencil.Proofs.Token.Content

/-!
Which tags open and close which blocks, told from the tags alone. A closing tag closes the
innermost open block of its name, and the blocks within are dropped.
-/

namespace Stencil

/-- Whether a token opens a block, known or not. -/
def Token.opensBlock (token : Token) : Bool :=
  token.kind == .blockOpen && !token.words.isEmpty

theorem Token.exists_words_of_opensBlock
    {token : Token} (opens : token.opensBlock = true) :
    token.kind = .blockOpen ∧ ∃ helper arguments, token.words = helper :: arguments := by
  simp only [opensBlock, Bool.and_eq_true, beq_iff_eq, Bool.not_eq_true',
    List.isEmpty_eq_false_iff] at opens
  exact ⟨opens.1, List.exists_cons_of_ne_nil opens.2⟩

/-- The opening tags of the open blocks from the innermost outwards, the tags of the closed
blocks, and the opening tags of the blocks that were left open within a closed one. -/
structure Nesting where
  opened : List Token
  closed : List (Token × Token)
  dropped : List Token

namespace Nesting

def empty : Nesting := ⟨[], [], []⟩

def differs (closing opening : Token) : Bool :=
  opening.words.head? != some closing.lexeme

def step (nesting : Nesting) (token : Token) : Nesting :=
  match token.kind with
  | .blockOpen =>
      if token.opensBlock then { nesting with opened := token :: nesting.opened } else nesting
  | .blockClose =>
      match nesting.opened.dropWhile (differs token) with
      | [] => nesting
      | opening :: outer =>
          ⟨outer, (opening, token) :: nesting.closed,
            nesting.opened.takeWhile (differs token) ++ nesting.dropped⟩
  | _ => nesting

def of (tokens : List Token) : Nesting :=
  tokens.foldl step empty

theorem of_append_singleton (tokens : List Token) (token : Token) :
    of (tokens ++ [token]) = (of tokens).step token := by
  rw [of, List.foldl_append]
  rfl

theorem step_eq_self
    {nesting : Nesting} {token : Token}
    (noOpening : token.kind = .blockOpen → token.words = [])
    (noClosing : token.kind = .blockClose →
      ∀ opening ∈ nesting.opened, opening.words.head? ≠ some token.lexeme) :
    nesting.step token = nesting := by
  unfold step
  split
  · rename_i kind
    rw [if_neg]
    simp [Token.opensBlock, noOpening kind]
  · rename_i kind
    have nothing : nesting.opened.dropWhile (differs token) = [] := by
      rw [List.dropWhile_eq_nil_iff]
      intro opening member
      exact bne_iff_ne.mpr (noClosing kind opening member)
    rw [nothing]
  · rfl

theorem step_of_opensBlock
    {nesting : Nesting} {token : Token} (opens : token.opensBlock = true) :
    nesting.step token = { nesting with opened := token :: nesting.opened } := by
  have kind := (Token.exists_words_of_opensBlock opens).1
  simp only [step, kind, opens, if_true]

theorem step_of_closes
    {nesting : Nesting} {token opening : Token} {inner outer : List Token}
    (kind : token.kind = .blockClose) (opened : nesting.opened = inner ++ opening :: outer)
    (named : opening.words.head? = some token.lexeme)
    (distinct : ∀ other ∈ inner, other.words.head? ≠ some token.lexeme) :
    nesting.step token =
      ⟨outer, (opening, token) :: nesting.closed, inner ++ nesting.dropped⟩ := by
  have passed : ∀ other ∈ inner, differs token other = true := fun other member =>
    bne_iff_ne.mpr (distinct other member)
  have stopped : ¬ differs token opening = true := by
    simp [differs, named]
  simp only [step, kind, opened, List.dropWhile_append_of_pos passed,
    List.takeWhile_append_of_pos passed, List.dropWhile_cons_of_neg stopped,
    List.takeWhile_cons_of_neg stopped, List.append_nil]

inductive Step (nesting : Nesting) (token : Token) : Nesting → Prop
  | stay :
      token.opensBlock = false →
      Step nesting token nesting
  | enter :
      token.opensBlock = true →
      Step nesting token { nesting with opened := token :: nesting.opened }
  | leave {inner outer : List Token} {opening : Token} :
      token.opensBlock = false →
      nesting.opened = inner ++ opening :: outer →
      token.kind = .blockClose →
      opening.words.head? = some token.lexeme →
      Step nesting token
        ⟨outer, (opening, token) :: nesting.closed, inner ++ nesting.dropped⟩

theorem step_spec (nesting : Nesting) (token : Token) :
    Step nesting token (nesting.step token) := by
  unfold step
  split
  · split
    · rename_i opens
      exact .enter opens
    · rename_i opens
      exact .stay (Bool.eq_false_iff.mpr opens)
  · rename_i kind
    have noOpening : token.opensBlock = false := by simp [Token.opensBlock, kind]
    split
    · exact .stay noOpening
    · rename_i opening outer dropped
      refine .leave noOpening ?_ kind ?_
      · rw [← dropped, List.takeWhile_append_dropWhile]
      · have stopped := List.head?_dropWhile_not (differs token) nesting.opened
        rw [dropped] at stopped
        simpa [differs] using stopped
  · rename_i noOpening _
    exact .stay (Bool.eq_false_iff.mpr fun opens =>
      noOpening (Token.exists_words_of_opensBlock opens).1)

/-! ## Histories -/

/-- A block was opened when those now around it were the open ones. -/
theorem exists_split_of_opened
    {tokens inner outer : List Token} {opening : Token}
    (opened : (of tokens).opened = inner ++ opening :: outer) :
    ∃ before after,
      tokens = before ++ opening :: after ∧ (of before).opened = outer ∧
        opening.opensBlock = true := by
  induction tokens using List.reverseRecOn generalizing inner with
  | nil => exact absurd opened (by simp [of, empty])
  | append_singleton tokens token inductionHypothesis =>
      have later {inner' : List Token} (still : (of tokens).opened = inner' ++ opening :: outer) :
          ∃ before after,
            tokens ++ [token] = before ++ opening :: after ∧ (of before).opened = outer ∧
              opening.opensBlock = true := by
        obtain ⟨before, after, split, around, opens⟩ := inductionHypothesis still
        refine ⟨before, after ++ [token], ?_, around, opens⟩
        rw [split, List.append_assoc, List.cons_append]
      have spec := step_spec (of tokens) token
      rw [of_append_singleton] at opened
      generalize (of tokens).step token = next at spec opened
      cases spec with
      | stay => exact later opened
      | enter opens =>
          cases inner with
          | nil =>
              obtain ⟨rfl, around⟩ := List.cons.inj opened
              exact ⟨tokens, [], rfl, around, opens⟩
          | cons first inner => exact later (List.cons.inj opened).2
      | @leave dropped _ closing _ enclosing =>
          have around : (of tokens).opened = (dropped ++ closing :: inner) ++ opening :: outer := by
            rw [enclosing, List.append_assoc, List.cons_append]
            exact congrArg (dropped ++ closing :: ·) opened
          exact later around

def openings (nesting : Nesting) : List Token :=
  nesting.opened ++ (nesting.closed.map Prod.fst ++ nesting.dropped)

theorem perm_openings_of (tokens : List Token) :
    (of tokens).openings.Perm (tokens.filter Token.opensBlock) := by
  induction tokens using List.reverseRecOn with
  | nil => exact .refl []
  | append_singleton tokens token inductionHypothesis =>
      have spec := step_spec (of tokens) token
      rw [of_append_singleton, List.filter_append]
      generalize (of tokens).step token = next at spec
      cases spec with
      | stay opens =>
          rw [List.filter_singleton, opens]
          simpa using inductionHypothesis
      | enter opens =>
          rw [List.filter_singleton, opens]
          exact (inductionHypothesis.cons token).trans (List.perm_append_singleton token _).symm
      | @leave inner outer opening opens enclosing =>
          rw [List.filter_singleton, opens]
          have moved : (openings ⟨outer, (opening, token) :: (of tokens).closed,
              inner ++ (of tokens).dropped⟩).Perm (of tokens).openings := by
            rw [List.perm_iff_count]
            intro counted
            simp only [openings, enclosing, List.map_cons, List.count_append, List.count_cons]
            omega
          exact moved.trans (by simpa using inductionHypothesis)

theorem mem_of_mem_openings
    {tokens : List Token} {opening : Token} (member : opening ∈ (of tokens).openings) :
    opening ∈ tokens ∧ opening.opensBlock = true :=
  List.mem_filter.mp ((perm_openings_of tokens).mem_iff.mp member)

private theorem nodup_openings
    {tokens : List Token} (nodup : tokens.Nodup) :
    (of tokens).openings.Nodup :=
  (perm_openings_of tokens).nodup_iff.mpr (nodup.filter _)

theorem not_mem_closed
    {tokens : List Token} (nodup : tokens.Nodup) {opening : Token}
    (unclosed : opening ∈ (of tokens).opened ∨ opening ∈ (of tokens).dropped)
    (closing : Token) :
    (opening, closing) ∉ (of tokens).closed := by
  intro member
  have first : opening ∈ (of tokens).closed.map Prod.fst := List.mem_map_of_mem member
  obtain ⟨_, others, apart⟩ := List.nodup_append.mp (nodup_openings nodup)
  rcases unclosed with opened | dropped
  · exact apart opening opened opening (List.mem_append_left _ first) rfl
  · exact (List.nodup_append.mp others).2.2 opening first opening dropped rfl

theorem mem_of_mem_closed
    {tokens : List Token} {opening closing : Token}
    (member : (opening, closing) ∈ (of tokens).closed) :
    closing ∈ tokens := by
  induction tokens using List.reverseRecOn with
  | nil => exact absurd member List.not_mem_nil
  | append_singleton tokens token inductionHypothesis =>
      have spec := step_spec (of tokens) token
      rw [of_append_singleton] at member
      generalize (of tokens).step token = next at spec member
      cases spec with
      | stay => exact List.mem_append_left _ (inductionHypothesis member)
      | enter => exact List.mem_append_left _ (inductionHypothesis member)
      | leave =>
          rcases List.mem_cons.mp member with same | earlier
          · rw [(Prod.mk.inj same).2]
            exact List.mem_concat_self
          · exact List.mem_append_left _ (inductionHypothesis earlier)

end Nesting

/-! ## Blocks around a token -/

namespace Nesting

/-- After some tokens, the next one is inside a block or closes it. -/
def Holds (before : List Token) (token opening : Token) : Prop :=
  opening ∈ (of before).opened ∧
    (opening ∈ (of (before ++ [token])).opened ∨
      (opening, token) ∈ (of (before ++ [token])).closed)

/-- A token belongs to a block: it is inside the block, or closes it. -/
def Belongs (tokens : List Token) (token opening : Token) : Prop :=
  ∃ before after, tokens = before ++ token :: after ∧ Holds before token opening

/-- A block for which there is no place in a document: its helper is not in the table, or too
many blocks were open when it was opened. -/
inductive Misplaced (table : BlockTable) (tokens : List Token) (opening : Token) : Prop
  | unknown {helper : String} {arguments : List String} :
      opening ∈ tokens →
      opening.kind = .blockOpen →
      opening.words = helper :: arguments →
      table.contains helper = false →
      Misplaced table tokens opening
  | tooDeep {before after : List Token} :
      tokens = before ++ opening :: after →
      opening.opensBlock = true →
      maxBlockDepth ≤ (of before).opened.length →
      Misplaced table tokens opening

/-- A block that is left out of a document: it has no place there, or is never closed. -/
inductive Discarded (table : BlockTable) (tokens : List Token) (opening : Token) : Prop
  | misplaced :
      Misplaced table tokens opening →
      Discarded table tokens opening
  | unclosed :
      opening ∈ tokens →
      opening.opensBlock = true →
      (∀ closing, (opening, closing) ∉ (of tokens).closed) →
      Discarded table tokens opening

theorem Belongs.append
    {tokens : List Token} {token opening : Token} (belongs : Belongs tokens token opening)
    (more : List Token) :
    Belongs (tokens ++ more) token opening := by
  obtain ⟨before, after, split, holds⟩ := belongs
  refine ⟨before, after ++ more, ?_, holds⟩
  rw [split, List.append_assoc, List.cons_append]

theorem Misplaced.append
    {table : BlockTable} {tokens : List Token} {opening : Token}
    (misplaced : Misplaced table tokens opening) (more : List Token) :
    Misplaced table (tokens ++ more) opening := by
  cases misplaced with
  | unknown member kind words missing =>
      exact .unknown (List.mem_append_left more member) kind words missing
  | @tooDeep before after split opens deep =>
      have later : tokens ++ more = before ++ opening :: (after ++ more) := by
        rw [split, List.append_assoc, List.cons_append]
      exact .tooDeep later opens deep

/-- A block within more blocks than there may be lies in one that is too deep itself. -/
theorem exists_tooDeep_around
    {table : BlockTable} {before after : List Token} {opening : Token}
    (opens : opening.opensBlock = true) (deep : maxBlockDepth < (of before).opened.length) :
    ∃ outer, Misplaced table (before ++ opening :: after) outer ∧
      Belongs (before ++ opening :: after) opening outer := by
  -- The outermost of the blocks that are one too many has exactly `maxBlockDepth` around it.
  have split := List.take_append_drop
    ((of before).opened.length - (maxBlockDepth + 1)) (of before).opened
  have length := List.length_drop
    (i := (of before).opened.length - (maxBlockDepth + 1)) (l := (of before).opened)
  cases rest : (of before).opened.drop ((of before).opened.length - (maxBlockDepth + 1)) with
  | nil =>
      rw [rest, List.length_nil] at length
      omega
  | cons outer others =>
      rw [rest, List.length_cons] at length
      rw [rest] at split
      have member : outer ∈ (of before).opened := by
        rw [← split]
        exact List.mem_append_right _ List.mem_cons_self
      obtain ⟨start, between, beforeSplit, around, outerOpens⟩ :=
        exists_split_of_opened split.symm
      refine ⟨outer, ?_, before, after, rfl, member, .inl ?_⟩
      · have laid : before ++ opening :: after =
            start ++ outer :: (between ++ opening :: after) := by
          rw [beforeSplit, List.append_assoc, List.cons_append]
        refine .tooDeep laid outerOpens ?_
        rw [around]
        omega
      · rw [of_append_singleton, step_of_opensBlock opens]
        exact List.mem_cons_of_mem opening member

theorem not_mem_of_nodup
    {tokens : List Token} {token : Token} (nodup : (tokens ++ [token]).Nodup) :
    token ∉ tokens := by
  intro member
  exact (List.nodup_append.mp nodup).2.2 token member token List.mem_cons_self rfl

/-- The blocks that a token belongs to are the outer ones of the open blocks. -/
theorem exists_around
    {before : List Token} {token : Token} (nodup : (before ++ [token]).Nodup) :
    ∃ inner around,
      (of before).opened = inner ++ around ∧
        ∀ opening, Holds before token opening ↔ opening ∈ around := by
  have fresh := not_mem_of_nodup nodup
  have spec := step_spec (of before) token
  unfold Holds
  rw [of_append_singleton]
  generalize (of before).step token = next at spec
  cases spec with
  | stay =>
      refine ⟨[], (of before).opened, rfl, fun opening => ⟨And.left, fun member => ?_⟩⟩
      exact ⟨member, .inl member⟩
  | enter =>
      refine ⟨[], (of before).opened, rfl, fun opening => ⟨And.left, fun member => ?_⟩⟩
      exact ⟨member, .inl (List.mem_cons_of_mem token member)⟩
  | @leave inner outer closing _ enclosing =>
      refine ⟨inner, closing :: outer, enclosing, fun opening => ⟨?_, fun member => ?_⟩⟩
      · rintro ⟨_, still | now⟩
        · exact List.mem_cons_of_mem closing still
        · rcases List.mem_cons.mp now with same | earlier
          · rw [(Prod.mk.inj same).1]
            exact List.mem_cons_self
          · exact absurd (mem_of_mem_closed earlier) fresh
      · refine ⟨by rw [enclosing]; exact List.mem_append_right inner member, ?_⟩
        rcases List.mem_cons.mp member with rfl | outside
        · exact .inr List.mem_cons_self
        · exact .inl outside

private theorem exists_last
    {α : Type} {property : α → Prop} {items : List α} {item : α} (member : item ∈ items)
    (holds : property item) :
    ∃ before last after,
      items = before ++ last :: after ∧ property last ∧ ∀ other ∈ after, ¬ property other := by
  induction items generalizing item with
  | nil => exact absurd member List.not_mem_nil
  | cons first rest inductionHypothesis =>
      by_cases later : ∃ other ∈ rest, property other
      · obtain ⟨other, otherMember, otherHolds⟩ := later
        obtain ⟨before, last, after, split, lastHolds, none⟩ :=
          inductionHypothesis otherMember otherHolds
        exact ⟨first :: before, last, after, by rw [split, List.cons_append], lastHolds, none⟩
      · rcases List.mem_cons.mp member with rfl | inside
        · exact ⟨[], item, rest, rfl, holds, fun other otherMember otherHolds =>
            later ⟨other, otherMember, otherHolds⟩⟩
        · exact absurd ⟨item, inside, holds⟩ later

theorem eq_of_append_cons
    {tokens before after start rest : List Token} {token : Token} (nodup : tokens.Nodup)
    (split : tokens = before ++ token :: after) (other : tokens = start ++ token :: rest) :
    before = start ∧ after = rest := by
  rw [split] at nodup other
  obtain ⟨_, afterNodup, apart⟩ := List.nodup_append.mp nodup
  have notBefore : token ∉ before := fun member =>
    apart token member token List.mem_cons_self rfl
  obtain ⟨sameBefore, _, sameAfter⟩ := (List.append_cons_inj_of_notMem notBefore
    (List.nodup_cons.mp afterNodup).1).mp other
  exact ⟨sameBefore, sameAfter⟩

/-- Of the discarded blocks that a token belongs to, one is in no other. -/
theorem exists_outermost
    {table : BlockTable} {tokens : List Token} (nodup : tokens.Nodup) {token opening : Token}
    (belongs : Belongs tokens token opening) (discarded : Discarded table tokens opening) :
    ∃ outermost,
      Belongs tokens token outermost ∧ Discarded table tokens outermost ∧
        ∀ outer, Discarded table tokens outer → ¬ Belongs tokens outermost outer := by
  obtain ⟨before, after, split, holds⟩ := belongs
  have nodupBefore : (before ++ [token]).Nodup := by
    rw [split, ← List.singleton_append, ← List.append_assoc] at nodup
    exact (List.nodup_append.mp nodup).1
  obtain ⟨inner, around, opened, members⟩ := exists_around nodupBefore
  obtain ⟨within, outermost, outside, aroundSplit, lost, others⟩ :=
    exists_last (members opening |>.mp holds) discarded
  refine ⟨outermost, ⟨before, after, split, ?_⟩, lost, ?_⟩
  · rw [members, aroundSplit]
    exact List.mem_append_right within List.mem_cons_self
  · rintro outer outerLost ⟨start, rest, outermostSplit, outerHolds⟩
    -- The outermost block has one place in the source, and was opened inside `outside`.
    rw [aroundSplit, ← List.append_assoc] at opened
    obtain ⟨start', between, beforeSplit, opened', _⟩ := exists_split_of_opened opened
    rw [beforeSplit, List.append_assoc, List.cons_append] at split
    obtain ⟨rfl, _⟩ := eq_of_append_cons nodup split outermostSplit
    rw [← opened'] at others
    exact others outer outerHolds.1 outerLost

end Nesting

end Stencil
