import Stencil.Proofs.Nesting

/-!
Which closing tag ends which block. The tags of two blocks lie one pair within the other, or one
pair after the other.
-/

namespace Stencil

namespace Nesting

private theorem sublist_of_append_singleton
    {α : Type} (items : List α) {list : List α} {last item : α}
    (sublist : (items ++ [last]).Sublist (list ++ [item])) (different : last ≠ item) :
    (items ++ [last]).Sublist list := by
  obtain ⟨first, second, split, inList, inLast⟩ := List.sublist_append_iff.mp sublist
  rcases List.sublist_singleton.mp inLast with rfl | rfl
  · rw [split, List.append_nil]
    exact inList
  · exact absurd (List.append_inj' split rfl).2 (by simpa using different)

private theorem not_sublist_swap
    {α : Type} {list : List α} {first second : α} (nodup : list.Nodup)
    (sublist : [first, second].Sublist list) : ¬ [second, first].Sublist list := by
  intro swapped
  induction list with
  | nil => exact absurd sublist (by simp)
  | cons item rest inductionHypothesis =>
      obtain ⟨fresh, restNodup⟩ := List.nodup_cons.mp nodup
      cases sublist with
      | cons _ later =>
          cases swapped with
          | cons _ laterSwapped => exact inductionHypothesis restNodup later laterSwapped
          | cons_cons => exact fresh (later.subset (by simp))
      | cons_cons _ tail =>
          cases swapped with
          | cons _ later => exact fresh (later.subset (by simp))
          | cons_cons => exact fresh (tail.subset (by simp))

/-- How the tags of a nesting lie among the tokens it is of. -/
structure Laid (tokens : List Token) (nesting : Nesting) : Prop where
  opened : nesting.opened.reverse.Sublist tokens
  closed : ∀ opening closing, (opening, closing) ∈ nesting.closed →
    [opening, closing].Sublist tokens
  matched : ∀ opening closing, (opening, closing) ∈ nesting.closed →
    closing.kind = .blockClose ∧ opening.words.head? = some closing.lexeme
  outside : ∀ opening closing, (opening, closing) ∈ nesting.closed →
    ∀ other ∈ nesting.opened, ¬ [opening, other, closing].Sublist tokens
  uncrossed : ∀ opening closing, (opening, closing) ∈ nesting.closed →
    ∀ later last, (later, last) ∈ nesting.closed →
      ¬ [opening, later, closing, last].Sublist tokens

namespace Laid

variable {tokens : List Token} {nesting : Nesting} {token : Token}

private theorem ne_of_mem_closed
    (fresh : token ∉ tokens) (laid : Laid tokens nesting) {opening closing : Token}
    (member : (opening, closing) ∈ nesting.closed) : closing ≠ token := by
  rintro rfl
  exact fresh ((laid.closed opening closing member).subset (by simp))

theorem nothing : Laid [] empty where
  opened := List.Sublist.slnil
  closed _ _ member := absurd member List.not_mem_nil
  matched _ _ member := absurd member List.not_mem_nil
  outside _ _ member := absurd member List.not_mem_nil
  uncrossed _ _ member := absurd member List.not_mem_nil

theorem stay (fresh : token ∉ tokens) (laid : Laid tokens nesting) :
    Laid (tokens ++ [token]) nesting := by
  refine ⟨?_, ?_, laid.matched, ?_, ?_⟩
  · exact laid.opened.trans (List.sublist_append_left tokens [token])
  · intro opening closing member
    exact (laid.closed opening closing member).trans (List.sublist_append_left tokens [token])
  · intro opening closing member other still sublist
    exact laid.outside opening closing member other still
      (sublist_of_append_singleton [opening, other] sublist
        (laid.ne_of_mem_closed fresh member))
  · intro opening closing member later last laterMember sublist
    exact laid.uncrossed opening closing member later last laterMember
      (sublist_of_append_singleton [opening, later, closing] sublist
        (laid.ne_of_mem_closed fresh laterMember))

theorem enter (fresh : token ∉ tokens) (laid : Laid tokens nesting) :
    Laid (tokens ++ [token]) { nesting with opened := token :: nesting.opened } := by
  have kept := laid.stay fresh
  refine ⟨?_, kept.closed, kept.matched, ?_, kept.uncrossed⟩
  · rw [List.reverse_cons]
    exact laid.opened.append_right [token]
  · intro opening closing member other opened sublist
    rcases List.mem_cons.mp opened with rfl | still
    · have earlier := sublist_of_append_singleton [opening, other] sublist
        (laid.ne_of_mem_closed fresh member)
      exact fresh (earlier.subset (by simp))
    · exact kept.outside opening closing member other still sublist

theorem leave
    {inner outer : List Token} {opening : Token} (nodup : (tokens ++ [token]).Nodup)
    (laid : Laid tokens nesting) (enclosing : nesting.opened = inner ++ opening :: outer)
    (kind : token.kind = .blockClose) (named : opening.words.head? = some token.lexeme) :
    Laid (tokens ++ [token])
      ⟨outer, (opening, token) :: nesting.closed, inner ++ nesting.dropped⟩ := by
  have tokensNodup := (List.nodup_append.mp nodup).1
  have fresh := not_mem_of_nodup nodup
  have kept := laid.stay fresh
  have opened : opening ∈ nesting.opened := by simp [enclosing]
  have stillOpened {other : Token} (member : other ∈ outer) : other ∈ nesting.opened := by
    simp [enclosing, member]
  have inTokens : opening ∈ tokens := laid.opened.subset (List.mem_reverse.mpr opened)
  -- A block around the one that ends was opened before it.
  have around {other : Token} (member : other ∈ outer) : [other, opening].Sublist tokens := by
    have inOpened : [opening, other].Sublist nesting.opened := by
      rw [enclosing]
      exact ((List.singleton_sublist.mpr member).cons_cons opening).trans
        (List.sublist_append_right inner _)
    exact inOpened.reverse.trans laid.opened
  refine ⟨?_, ?_, ?_, ?_, ?_⟩
  · have outerOpened : outer.Sublist nesting.opened := by
      rw [enclosing]
      exact (List.sublist_cons_self opening outer).trans (List.sublist_append_right inner _)
    exact outerOpened.reverse.trans kept.opened
  · intro first last member
    rcases List.mem_cons.mp member with same | earlier
    · obtain ⟨rfl, rfl⟩ := Prod.mk.inj same
      exact (List.singleton_sublist.mpr inTokens).append_right [last]
    · exact kept.closed first last earlier
  · intro first last member
    rcases List.mem_cons.mp member with same | earlier
    · obtain ⟨rfl, rfl⟩ := Prod.mk.inj same
      exact ⟨kind, named⟩
    · exact kept.matched first last earlier
  · intro first last member other still sublist
    rcases List.mem_cons.mp member with same | earlier
    · obtain ⟨rfl, rfl⟩ := Prod.mk.inj same
      have within : [first, other].Sublist tokens :=
        (List.append_sublist_append_right [last]).mp sublist
      exact not_sublist_swap tokensNodup (around still) within
    · exact kept.outside first last earlier other (stillOpened still) sublist
  · intro first last member later laterLast laterMember sublist
    rcases List.mem_cons.mp laterMember with same | laterEarlier
    · obtain ⟨rfl, rfl⟩ := Prod.mk.inj same
      have within : [first, later, last].Sublist tokens :=
        (List.append_sublist_append_right [laterLast]).mp sublist
      rcases List.mem_cons.mp member with same | earlier
      · rw [(Prod.mk.inj same).2] at within
        exact fresh (within.subset (by simp))
      · exact laid.outside first last earlier later opened within
    · rcases List.mem_cons.mp member with same | earlier
      · have within := sublist_of_append_singleton [first, later, last] sublist
          (laid.ne_of_mem_closed fresh laterEarlier)
        rw [(Prod.mk.inj same).2] at within
        exact fresh (within.subset (by simp))
      · exact kept.uncrossed first last earlier later laterLast laterEarlier sublist

end Laid

theorem laid_of {tokens : List Token} (nodup : tokens.Nodup) : Laid tokens (of tokens) := by
  induction tokens using List.reverseRecOn with
  | nil => exact .nothing
  | append_singleton tokens token inductionHypothesis =>
      have laid := inductionHypothesis (List.nodup_append.mp nodup).1
      have fresh := not_mem_of_nodup nodup
      have spec := step_spec (of tokens) token
      rw [of_append_singleton]
      generalize (of tokens).step token = next at spec
      cases spec with
      | stay => exact laid.stay fresh
      | enter => exact laid.enter fresh
      | leave _ enclosing kind named => exact laid.leave nodup enclosing kind named

theorem mem_openings_of_unclosed
    {nesting : Nesting} {opening : Token} (member : opening ∈ nesting.opened ++ nesting.dropped) :
    opening ∈ nesting.openings := by
  rcases List.mem_append.mp member with opened | dropped
  · exact List.mem_append_left _ opened
  · exact List.mem_append_right _ (List.mem_append_right _ dropped)

theorem mem_closed_append
    {before : List Token} {pair : Token × Token} (member : pair ∈ (of before).closed)
    (more : List Token) : pair ∈ (of (before ++ more)).closed := by
  induction more using List.reverseRecOn with
  | nil =>
      rw [List.append_nil]
      exact member
  | append_singleton more token inductionHypothesis =>
      have spec := step_spec (of (before ++ more)) token
      rw [← List.append_assoc, of_append_singleton]
      generalize (of (before ++ more)).step token = next at spec
      cases spec with
      | stay => exact inductionHypothesis
      | enter => exact inductionHypothesis
      | leave => exact List.mem_cons_of_mem _ inductionHypothesis

/-- A closed block was open before its closing tag, and with it only those around it still are. -/
theorem exists_split_of_closed
    {tokens : List Token} {opening closing : Token}
    (member : (opening, closing) ∈ (of tokens).closed) :
    ∃ before after inner,
      tokens = before ++ closing :: after ∧
        (of before).opened = inner ++ opening :: (of (before ++ [closing])).opened := by
  induction tokens using List.reverseRecOn with
  | nil => exact absurd member List.not_mem_nil
  | append_singleton tokens token inductionHypothesis =>
      have later (earlier : (opening, closing) ∈ (of tokens).closed) :
          ∃ before after inner,
            tokens ++ [token] = before ++ closing :: after ∧
              (of before).opened = inner ++ opening :: (of (before ++ [closing])).opened := by
        obtain ⟨before, after, inner, split, opened⟩ := inductionHypothesis earlier
        refine ⟨before, after ++ [token], inner, ?_, opened⟩
        rw [split, List.append_assoc, List.cons_append]
      have spec := step_spec (of tokens) token
      rw [of_append_singleton] at member
      generalize result : (of tokens).step token = next at spec member
      cases spec with
      | stay => exact later member
      | enter => exact later member
      | @leave inner outer _ _ enclosing =>
          rcases List.mem_cons.mp member with same | earlier
          · obtain ⟨rfl, rfl⟩ := Prod.mk.inj same
            refine ⟨tokens, [], inner, rfl, ?_⟩
            rw [of_append_singleton, result]
            exact enclosing
          · exact later earlier

end Nesting

end Stencil
