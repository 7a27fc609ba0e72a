import Stencil.Proofs.Path.Writing

/-!
Displays of paths that have been read. Reading a display gives the same path again, unless the
path starts at the current value with a member called `this`: the display then mentions the
current value instead, and the member is lost.
-/

namespace Stencil.Path

private theorem toList_intercalate (first : String) (others : List String) :
    (".".intercalate (first :: others)).toList =
      first.toList ++ (others.map String.toList).flatMap ('.' :: ·) := by
  induction others generalizing first with
  | nil => simp
  | cons second rest inductionHypothesis =>
      rw [String.intercalate_cons_cons, String.append_assoc, String.toList_append,
        String.toList_append, inductionHypothesis]
      rfl

private theorem toList_display (path : Path) :
    path.display.toList =
      writtenLevels path.parents ++ (displayStart path.root path.segments).toList := by
  rw [display, String.toList_append, String.toList_join, List.flatMap_def,
    List.map_replicate]
  rfl

private theorem toList_displayStart_data (name : String) (segments : List String) :
    (displayStart (.data name) segments).toList =
      '@' :: (name.toList ++ (segments.map String.toList).flatMap ('.' :: ·)) := by
  cases segments with
  | nil =>
      rw [displayStart, String.toList_append, List.map_nil, List.flatMap_nil, List.append_nil]
      rfl
  | cons first others =>
      rw [displayStart, String.toList_append, toList_intercalate]
      · simp
      · exact nofun

/-- The display of a start denotes it, unless that is a member called `this`. -/
theorem below_displayStart
    {root : Root} {segments : List String} (named : root.Named)
    (isSegment : ∀ segment ∈ segments, IsSegment segment)
    (apart : ¬ (root = .context ∧ segments.head? = some "this")) :
    Below (displayStart root segments).toList ⟨0, root, segments⟩ := by
  cases root with
  | data name =>
      rw [toList_displayStart_data]
      exact .of_data (start_data named isSegment)
  | context =>
      cases segments with
      | nil => exact .this
      | cons first others =>
          have members := members_flatMap isSegment
          rw [← toList_intercalate] at members
          have noMention := members.no_mention fun head => apart ⟨rfl, head⟩
          exact .direct noMention.1 noMention.2 (.members members)

private theorem below_displayStart_this
    {segments : List String} (isSegment : ∀ segment ∈ segments, IsSegment segment) :
    Below (displayStart .context ("this" :: segments)).toList ⟨0, .context, segments⟩ := by
  rw [displayStart, toList_intercalate]
  · have context : Root.context.Named := trivial
    exact below_written context isSegment
  · exact nofun

/-- The display of a path that was read can be read. It gives the same path again unless that
starts at the current value with a member called `this`, and then the path without this member. -/
theorem read_display
    {text : String} {path : Path} (accepted : read text = .ok path) :
    (∃ again, read path.display = .ok again) ∧
      (read path.display = .ok path ↔
        ¬ (path.root = .context ∧ path.segments.head? = some "this")) ∧
      ∀ rest, path.root = .context → path.segments = "this" :: rest →
        read path.display = .ok ⟨path.parents, .context, rest⟩ := by
  have named := (denotes_of_readChars accepted).named
  obtain ⟨parents, root, segments⟩ := path
  have same (apart : ¬ (root = .context ∧ segments.head? = some "this")) :
      read (display ⟨parents, root, segments⟩) = .ok ⟨parents, root, segments⟩ := by
    have below := below_displayStart named.root named.segments apart
    rw [read, toList_display]
    exact (denotes_writtenLevels parents below).readChars
  have lost (rest : List String) (context : root = .context)
      (this : segments = "this" :: rest) :
      read (display ⟨parents, root, segments⟩) = .ok ⟨parents, .context, rest⟩ := by
    subst context this
    have below := below_displayStart_this (List.forall_mem_cons.mp named.segments).2
    rw [read, toList_display]
    exact (denotes_writtenLevels parents below).readChars
  refine ⟨?_, ⟨?_, same⟩, lost⟩
  · by_cases apart : root = .context ∧ segments.head? = some "this"
    · obtain ⟨rest, this⟩ := List.head?_eq_some_iff.mp apart.2
      exact ⟨_, lost rest apart.1 this⟩
    · exact ⟨_, same apart⟩
  · rintro again ⟨context, head⟩
    obtain ⟨rest, this⟩ := List.head?_eq_some_iff.mp head
    dsimp only at context this
    rw [lost rest context this] at again
    have shorter := congrArg Path.segments (Except.ok.inj again)
    exact absurd (shorter.trans this) (List.ne_cons_self)

/-- A member called `this` behind another mention of the current value is lost. -/
theorem read_display_this :
    let path : Path := ⟨1, .context, ["this", "a"]⟩
    read ".././this/a" = .ok path ∧ path.display = "../this.a" ∧
      read path.display ≠ .ok path ∧ read path.display = .ok ⟨1, .context, ["a"]⟩ := by
  intro path
  have accepted : read ".././this/a" = .ok path := by decide +kernel
  obtain ⟨_, again, lost⟩ := read_display accepted
  exact ⟨accepted, by decide +kernel, fun same => again.mp same ⟨rfl, rfl⟩, lost ["a"] rfl rfl⟩

end Stencil.Path
