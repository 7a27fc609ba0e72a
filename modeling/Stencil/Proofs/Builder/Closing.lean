import Stencil.Proofs.Builder.Reports
import Stencil.Proofs.Pairing
import Stencil.Proofs.Reading.Lenient

/-!
Which blocks the closing tags end as a document is built, and which diagnostics there are of
blocks and closing tags that have no partner.
-/

namespace Stencil

open Nesting

namespace Builder

variable {table : BlockTable} {tokens : List Token}

def openSpans (builder : Builder) : List Span :=
  builder.blocks.map fun block => block.tags.span

/-- A closing tag after some tokens ends the block of an opening tag: neither that block nor those
within are open any more. -/
def Ends (table : BlockTable) (before : List Token) (opening closing : Token) : Prop :=
  ∃ inner,
    (run table before).openSpans =
      inner ++ opening.span :: (run table (before ++ [closing])).openSpans

private theorem openSpans_run
    (table : BlockTable) (inside : ∀ token ∈ tokens, token.kind ≠ .endOfSource) :
    (run table tokens).openSpans = (of tokens).opened.map Token.span := by
  have linked := congrArg (List.map Diagnostic.span) (unclosed_blocks_run table inside)
  rwa [List.map_map, List.map_map] at linked

/-- The pairs of a nesting are those of the tags by which the builder ends blocks. -/
theorem mem_closed_iff_ends
    (table : BlockTable) (inside : ∀ token ∈ tokens, token.kind ≠ .endOfSource)
    (apart : ∀ first ∈ tokens, ∀ second ∈ tokens, first.span = second.span → first = second)
    {opening closing : Token} (member : opening ∈ tokens) :
    (opening, closing) ∈ (of tokens).closed ↔
      ∃ before after, tokens = before ++ closing :: after ∧ Ends table before opening closing := by
  have spans {before after : List Token} (split : tokens = before ++ closing :: after) :
      (run table before).openSpans = (of before).opened.map Token.span ∧
        (run table (before ++ [closing])).openSpans =
          (of (before ++ [closing])).opened.map Token.span := by
    rw [split] at inside
    refine ⟨openSpans_run table fun token found => inside token ?_,
      openSpans_run table fun token found => inside token ?_⟩
    · exact List.mem_append_left _ found
    · rw [List.append_cons]
      exact List.mem_append_left _ found
  constructor
  · intro closed
    obtain ⟨before, after, inner, split, opened⟩ := exists_split_of_closed closed
    refine ⟨before, after, split, inner.map Token.span, ?_⟩
    rw [(spans split).1, (spans split).2, opened, List.map_append, List.map_cons]
  · rintro ⟨before, after, split, inner, ended⟩
    rw [(spans split).1, (spans split).2, of_append_singleton] at ended
    have shorter := congrArg List.length ended
    rw [List.length_append, List.length_cons, List.length_map, List.length_map] at shorter
    -- Only a closing tag leaves fewer blocks open.
    have spec := Nesting.step_spec (of before) closing
    generalize result : (of before).step closing = next at spec ended shorter
    cases spec with
    | stay => omega
    | enter =>
        rw [List.length_cons] at shorter
        omega
    | @leave innerTags outer other _ enclosing =>
        rw [enclosing, List.map_append, List.map_cons] at ended
        have same := (List.append_inj' ended (by simp)).2
        have found : other ∈ tokens := by
          rw [split]
          refine List.mem_append_left _ (mem_of_mem_openings (List.mem_append_left _ ?_)).1
          rw [enclosing]
          exact List.mem_append_right _ List.mem_cons_self
        obtain rfl := apart other found opening member (List.cons.inj same).1
        have now : (other, closing) ∈ (of (before ++ [closing])).closed := by
          rw [of_append_singleton, result]
          exact List.mem_cons_self
        rw [split, List.append_cons]
        exact mem_closed_append now after

end Builder

def Diagnostic.ofUnclosed (diagnostic : Diagnostic) : Bool :=
  diagnostic.fault.kind = .unclosedBlock

theorem Diagnostic.ofNesting_of_ofUnclosed
    {diagnostic : Diagnostic} (unclosed : diagnostic.ofUnclosed = true) :
    diagnostic.fault.ofNesting = true := by
  have kind : diagnostic.fault.kind = .unclosedBlock := of_decide_eq_true unclosed
  simp [Fault.ofNesting, kind]

namespace Builder

theorem filter_ofUnclosed_unclosed (tokens : List Token) :
    (tokens.map Token.unclosed).filter Diagnostic.ofUnclosed = tokens.map Token.unclosed := by
  rw [List.filter_eq_self]
  intro diagnostic member
  obtain ⟨token, _, rfl⟩ := List.mem_map.mp member
  simp [Diagnostic.ofUnclosed, Token.unclosed, Fault.kind]

private theorem filter_ofUnclosed_entryFaults
    (table : BlockTable) (depth : Nat) (token : Token) (helper : String)
    (arguments : List String) :
    ((entryFaults table depth token helper arguments).map
      fun fault => Diagnostic.mk fault token.span).filter Diagnostic.ofUnclosed = [] := by
  rw [filter_entryFaults_of_ofNesting fun _ => Diagnostic.ofNesting_of_ofUnclosed]
  by_cases reached : depth = maxBlockDepth
  · simp [reached, Diagnostic.ofUnclosed, Fault.kind]
  · simp [reached]

/-- Before the end of the tokens, the blocks that are reported as unclosed are the dropped ones. -/
theorem perm_ofUnclosed_run
    (table : BlockTable) {tokens : List Token}
    (inside : ∀ token ∈ tokens, token.kind ≠ .endOfSource) :
    ((run table tokens).diagnostics.toList.filter Diagnostic.ofUnclosed).Perm
      ((of tokens).dropped.map Token.unclosed) := by
  induction tokens using List.reverseRecOn with
  | nil => exact .nil
  | append_singleton tokens token inductionHypothesis =>
      have kept := inductionHypothesis fun other member =>
        inside other (List.mem_append_left _ member)
      obtain ⟨added, reports, extended⟩ := exists_reports table
        (fun other member => inside other (List.mem_append_left _ member)) token
      rw [extended, List.filter_append]
      generalize of (tokens ++ [token]) = next at reports
      cases reports with
      | aside faults _ _ others =>
          rwa [filter_of_ofNesting (fun _ => Diagnostic.ofNesting_of_ofUnclosed) others,
            List.append_nil]
      | enter helper arguments =>
          rwa [filter_ofUnclosed_entryFaults, List.append_nil]
      | refuse fault _ ofClosing =>
          rwa [filter_refused_of_ofNesting (fun _ => Diagnostic.ofNesting_of_ofUnclosed) ofClosing,
            List.append_nil]
      | @leave inner outer opening =>
          rw [filter_ofUnclosed_unclosed, List.map_append]
          exact (kept.append_right _).trans List.perm_append_comm

end Builder

/-! ## Reports of closing tags -/

/-- Whether a closing tag has ended one block, or has one diagnostic. -/
structure Token.Settled (closing : Token) (pairs : List (Token × Token))
    (diagnostics : List Diagnostic) : Prop where
  once :
    (pairs.map Prod.snd).count closing +
      diagnostics.countP (fun diagnostic => diagnostic.span = closing.span) = 1
  faults : ∀ diagnostic ∈ diagnostics, diagnostic.span = closing.span →
    diagnostic.fault.ofClosing = true

private theorem Diagnostic.countP_span_eq_zero
    {diagnostics : List Diagnostic} {span : Span}
    (elsewhere : ∀ diagnostic ∈ diagnostics, diagnostic.span ≠ span) :
    diagnostics.countP (fun diagnostic => diagnostic.span = span) = 0 := by
  rw [List.countP_eq_zero]
  intro diagnostic member
  rw [decide_eq_true_iff]
  exact elsewhere diagnostic member

private theorem Token.count_eq_zero_of_ne
    {pairs : List (Token × Token)} {closing : Token}
    (others : ∀ pair ∈ pairs, pair.2 ≠ closing) : (pairs.map Prod.snd).count closing = 0 := by
  rw [List.count_eq_zero]
  intro member
  obtain ⟨pair, found, same⟩ := List.mem_map.mp member
  exact others pair found same

namespace Token.Settled

variable {closing : Token} {pairs : List (Token × Token)} {diagnostics : List Diagnostic}

theorem append
    (settled : closing.Settled pairs diagnostics) {more : List (Token × Token)}
    (others : ∀ pair ∈ more, pair.2 ≠ closing) {added : List Diagnostic}
    (elsewhere : ∀ diagnostic ∈ added, diagnostic.span ≠ closing.span) :
    closing.Settled (more ++ pairs) (diagnostics ++ added) := by
  refine ⟨?_, ?_⟩
  · rw [List.map_append, List.count_append, List.countP_append,
      Token.count_eq_zero_of_ne others, Diagnostic.countP_span_eq_zero elsewhere, Nat.zero_add,
      Nat.add_zero]
    exact settled.once
  · intro diagnostic member same
    rcases List.mem_append.mp member with earlier | now
    · exact settled.faults diagnostic earlier same
    · exact absurd same (elsewhere diagnostic now)

theorem perm
    (settled : closing.Settled pairs diagnostics) {others : List Diagnostic}
    (perm : others.Perm diagnostics) : closing.Settled pairs others := by
  refine ⟨?_, fun diagnostic member => settled.faults diagnostic (perm.mem_iff.mp member)⟩
  rw [perm.countP_eq]
  exact settled.once

end Token.Settled

namespace Builder

variable {table : BlockTable} {tokens : List Token}

private theorem Reports.span_of_mem
    {nesting next : Nesting} {token : Token} {added : List Diagnostic}
    (reports : Reports table nesting token next added) {diagnostic : Diagnostic}
    (member : diagnostic ∈ added) :
    diagnostic.span = token.span ∨
      ∃ opening ∈ nesting.opened, diagnostic.span = opening.span := by
  cases reports with
  | aside =>
      obtain ⟨fault, _, rfl⟩ := List.mem_map.mp member
      exact .inl rfl
  | enter =>
      obtain ⟨fault, _, rfl⟩ := List.mem_map.mp member
      exact .inl rfl
  | refuse =>
      rw [List.mem_singleton.mp member]
      exact .inl rfl
  | leave _ enclosing =>
      obtain ⟨opening, found, rfl⟩ := List.mem_map.mp member
      refine .inr ⟨opening, ?_, rfl⟩
      rw [enclosing]
      exact List.mem_append_left _ found

private theorem Reports.exists_pairs
    {nesting next : Nesting} {token : Token} {added : List Diagnostic}
    (reports : Reports table nesting token next added) :
    ∃ more, next.closed = more ++ nesting.closed ∧ ∀ pair ∈ more, pair.2 = token := by
  cases reports with
  | aside => exact ⟨[], rfl, fun _ member => absurd member List.not_mem_nil⟩
  | enter => exact ⟨[], rfl, fun _ member => absurd member List.not_mem_nil⟩
  | refuse => exact ⟨[], rfl, fun _ member => absurd member List.not_mem_nil⟩
  | leave =>
      refine ⟨[_], rfl, ?_⟩
      intro pair member
      rw [List.mem_singleton.mp member]

/-- A closing tag is settled where it is taken up, as no earlier pair or diagnostic is its own. -/
theorem Reports.settled
    {nesting next : Nesting} {closing : Token} {added earlier : List Diagnostic}
    (reports : Reports table nesting closing next added) (kind : closing.kind = .blockClose)
    (fresh : ∀ pair ∈ nesting.closed, pair.2 ≠ closing)
    (openedElsewhere : ∀ opening ∈ nesting.opened, opening.span ≠ closing.span)
    (elsewhere : ∀ diagnostic ∈ earlier, diagnostic.span ≠ closing.span) :
    closing.Settled next.closed (earlier ++ added) := by
  have noPairs := Token.count_eq_zero_of_ne fresh
  have noReports := Diagnostic.countP_span_eq_zero elsewhere
  cases reports with
  | aside _ _ noClosing => exact absurd kind noClosing
  | enter _ _ opening => simp [kind] at opening
  | refuse fault _ ofClosing =>
      refine ⟨?_, ?_⟩
      · rw [noPairs, List.countP_append, noReports]
        simp
      · intro diagnostic member same
        rcases List.mem_append.mp member with before | now
        · exact absurd same (elsewhere diagnostic before)
        · rw [List.mem_singleton.mp now]
          exact ofClosing
  | @leave inner outer opening _ enclosing =>
      have innerElsewhere : ∀ diagnostic ∈ inner.map Token.unclosed,
          diagnostic.span ≠ closing.span := by
        intro diagnostic member
        obtain ⟨token, found, rfl⟩ := List.mem_map.mp member
        refine openedElsewhere token ?_
        rw [enclosing]
        exact List.mem_append_left _ found
      refine ⟨?_, ?_⟩
      · rw [List.map_cons, List.count_cons_self, noPairs, List.countP_append, noReports,
          Diagnostic.countP_span_eq_zero innerElsewhere]
      · intro diagnostic member same
        rcases List.mem_append.mp member with before | now
        · exact absurd same (elsewhere diagnostic before)
        · exact absurd same (innerElsewhere diagnostic now)

theorem settled_run
    (table : BlockTable) (inside : ∀ token ∈ tokens, token.kind ≠ .endOfSource)
    (nodup : tokens.Nodup)
    (apart : ∀ first ∈ tokens, ∀ second ∈ tokens, first.span = second.span → first = second)
    {closing : Token} (member : closing ∈ tokens) (kind : closing.kind = .blockClose) :
    closing.Settled (of tokens).closed (run table tokens).diagnostics.toList := by
  induction tokens using List.reverseRecOn with
  | nil => exact absurd member List.not_mem_nil
  | append_singleton tokens token inductionHypothesis =>
      have earlier {other : Token} (found : other ∈ tokens) : other ∈ tokens ++ [token] :=
        List.mem_append_left _ found
      have insideEarlier : ∀ other ∈ tokens, other.kind ≠ .endOfSource := fun other found =>
        inside other (earlier found)
      have fresh := not_mem_of_nodup nodup
      have openedElsewhere : ∀ opening ∈ (of tokens).opened, opening.span ≠ closing.span := by
        intro opening opened same
        obtain ⟨found, opens⟩ := mem_of_mem_openings (List.mem_append_left _ opened)
        rw [apart opening (earlier found) closing member same] at opens
        simp [Token.opensBlock, kind] at opens
      obtain ⟨added, reports, extended⟩ := exists_reports table insideEarlier token
      rw [extended]
      -- An earlier closing tag is left alone by this token; the last one is settled by it.
      rcases List.mem_append.mp member with before | now
      · have different : closing ≠ token := ne_of_mem_of_not_mem before fresh
        obtain ⟨more, pairs, own⟩ := reports.exists_pairs
        rw [pairs]
        have settled := inductionHypothesis insideEarlier (List.nodup_append.mp nodup).1
          (fun first found second secondFound =>
            apart first (earlier found) second (earlier secondFound)) before
        refine settled.append ?_ ?_
        · intro pair found same
          exact different (same.symm.trans (own pair found))
        · intro diagnostic found same
          rcases reports.span_of_mem found with here | ⟨opening, opened, there⟩
          · exact different (apart closing member token List.mem_concat_self
              (same.symm.trans here))
          · exact openedElsewhere opening opened (there.symm.trans same)
      · obtain rfl := List.mem_singleton.mp now
        refine reports.settled kind ?_ openedElsewhere ?_
        · intro pair found same
          have closingFound : pair.2 ∈ tokens :=
            mem_of_mem_closed (show (pair.1, pair.2) ∈ (of tokens).closed from found)
          exact fresh (same ▸ closingFound)
        · intro diagnostic found same
          obtain ⟨_, other, otherFound, _, span⟩ :=
            placed_of_mem_diagnostics insideEarlier diagnostic found
          have equal := apart other (earlier otherFound) closing member (span.symm.trans same)
          exact fresh (equal ▸ otherFound)

end Builder

end Stencil
