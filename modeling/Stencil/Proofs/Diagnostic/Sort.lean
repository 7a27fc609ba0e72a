import Stencil.Diagnostic.Basic
import Stencil.Proofs.Position

/-!
Sorting diagnostics by place. The sort keeps the order of diagnostics at one place, so it is the
only list in reading order that has, for each place, the same diagnostics in the same order.
-/

namespace Stencil.Diagnostic

def atPlace (place : Position) (diagnostics : List Diagnostic) : List Diagnostic :=
  diagnostics.filter fun diagnostic => diagnostic.span.start = place

private theorem mem_atPlace
    {place : Position} {diagnostics : List Diagnostic} {diagnostic : Diagnostic} :
    diagnostic ∈ atPlace place diagnostics ↔
      diagnostic ∈ diagnostics ∧ diagnostic.span.start = place := by
  rw [atPlace, List.mem_filter, decide_eq_true_iff]

private theorem atPlace_append (place : Position) (first second : List Diagnostic) :
    atPlace place (first ++ second) = atPlace place first ++ atPlace place second :=
  List.filter_append _ _

private theorem atPlace_sortByPlace (place : Position) (diagnostics : List Diagnostic) :
    atPlace place (sortByPlace diagnostics) = atPlace place diagnostics := by
  have together :
      (atPlace place diagnostics).Pairwise fun first second => first.le second = true := by
    refine List.pairwise_of_forall_mem_list fun first firstMember second secondMember => ?_
    rw [le, (mem_atPlace.mp firstMember).2, (mem_atPlace.mp secondMember).2]
    exact place.le_refl
  have kept : (atPlace place diagnostics).Sublist (sortByPlace diagnostics) :=
    List.sublist_mergeSort le_trans le_total together List.filter_sublist
  have inside : (atPlace place diagnostics).Sublist
      (atPlace place (sortByPlace diagnostics)) := by
    have filtered := kept.filter fun diagnostic => decide (diagnostic.span.start = place)
    simpa only [atPlace, List.filter_filter, Bool.and_self] using filtered
  have length := ((perm_sortByPlace diagnostics).filter
    fun diagnostic => decide (diagnostic.span.start = place)).length_eq
  exact (inside.eq_of_length length.symm).symm

private theorem eq_of_atPlace
    {first second : List Diagnostic}
    (firstOrdered : first.Pairwise fun one other => one.le other = true)
    (secondOrdered : second.Pairwise fun one other => one.le other = true)
    (same : ∀ place, atPlace place first = atPlace place second) :
    first = second := by
  induction first generalizing second with
  | nil =>
      cases second with
      | nil => rfl
      | cons other others =>
          have listed := mem_atPlace.mpr ⟨List.mem_cons_self (a := other) (l := others), rfl⟩
          rw [← same] at listed
          exact absurd listed List.not_mem_nil
  | cons one rest inductionHypothesis =>
      cases second with
      | nil =>
          have listed := mem_atPlace.mpr ⟨List.mem_cons_self (a := one) (l := rest), rfl⟩
          rw [same] at listed
          exact absurd listed List.not_mem_nil
      | cons other others =>
          obtain ⟨oneFirst, restOrdered⟩ := List.pairwise_cons.mp firstOrdered
          obtain ⟨otherFirst, othersOrdered⟩ := List.pairwise_cons.mp secondOrdered
          have lower : one.le other = true := by
            have listed := mem_atPlace.mpr ⟨List.mem_cons_self (a := other) (l := others), rfl⟩
            rw [← same] at listed
            rcases List.mem_cons.mp (mem_atPlace.mp listed).1 with equal | later
            · rw [equal]
              exact Position.le_refl _
            · exact oneFirst other later
          have upper : other.le one = true := by
            have listed := mem_atPlace.mpr ⟨List.mem_cons_self (a := one) (l := rest), rfl⟩
            rw [same] at listed
            rcases List.mem_cons.mp (mem_atPlace.mp listed).1 with equal | later
            · rw [equal]
              exact Position.le_refl _
            · exact otherFirst one later
          have start := Position.le_antisymm lower upper
          have heads := same one.span.start
          simp only [atPlace, List.filter_cons, start, decide_true, if_true] at heads
          obtain ⟨rfl, _⟩ := List.cons.inj heads
          rw [inductionHypothesis restOrdered othersOrdered]
          intro place
          have both := same place
          simp only [atPlace, List.filter_cons] at both
          split at both
          · exact (List.cons.inj both).2
          · exact both

/-- Diagnostics of which some all come before the others are sorted on either side apart. -/
theorem sortByPlace_append
    {low lowMore high highMore : List Diagnostic}
    (apart : ∀ one ∈ low ++ lowMore, ∀ other ∈ high ++ highMore,
      one.span.start.Before other.span.start) :
    sortByPlace ((low ++ high) ++ (lowMore ++ highMore)) =
      sortByPlace (low ++ lowMore) ++ sortByPlace (high ++ highMore) := by
  refine eq_of_atPlace (pairwise_sortByPlace _) ?_ fun place => ?_
  · refine List.pairwise_append.mpr ⟨pairwise_sortByPlace _, pairwise_sortByPlace _, ?_⟩
    intro one oneMember other otherMember
    exact (apart one ((perm_sortByPlace _).mem_iff.mp oneMember) other
      ((perm_sortByPlace _).mem_iff.mp otherMember)).le
  · simp only [atPlace_sortByPlace, atPlace_append, List.append_assoc]
    by_cases none : atPlace place lowMore = []
    · simp only [none, List.nil_append]
    · obtain ⟨one, oneMember⟩ := List.exists_mem_of_ne_nil _ none
      obtain ⟨oneListed, oneStart⟩ := mem_atPlace.mp oneMember
      have noHigh : atPlace place high = [] := by
        rw [List.eq_nil_iff_forall_not_mem]
        intro other otherMember
        obtain ⟨otherListed, otherStart⟩ := mem_atPlace.mp otherMember
        have before := apart one (List.mem_append_right low oneListed) other
          (List.mem_append_left highMore otherListed)
        exact before.ne (oneStart.trans otherStart.symm)
      simp only [noHigh, List.nil_append]

theorem filter_sortByPlace (keep : Diagnostic → Bool) (diagnostics : List Diagnostic) :
    (sortByPlace diagnostics).filter keep = sortByPlace (diagnostics.filter keep) := by
  apply eq_of_atPlace
  · exact (pairwise_sortByPlace diagnostics).filter keep
  · exact pairwise_sortByPlace _
  · intro place
    have atPlace_filter (listed : List Diagnostic) :
        atPlace place (listed.filter keep) = (atPlace place listed).filter keep := by
      rw [atPlace, atPlace, List.filter_comm]
    rw [atPlace_sortByPlace, atPlace_filter, atPlace_filter, atPlace_sortByPlace]

theorem sortByPlace_map
    {change : Diagnostic → Diagnostic} {diagnostics : List Diagnostic}
    (keeps : ∀ one ∈ diagnostics, ∀ other ∈ diagnostics,
      one.le other = (change one).le (change other)) :
    sortByPlace (diagnostics.map change) = (sortByPlace diagnostics).map change :=
  (List.map_mergeSort keeps).symm

end Stencil.Diagnostic
