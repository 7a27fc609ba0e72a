import Stencil.Proofs.Path.Grammar

/-!
Paths written out in full: the levels to climb, then `this` or a data variable, then the
segments, each after a point. What is written can be read, whatever the segments are called.
-/

namespace Stencil.Path

/-- A name that a path can hold in a tag: characters of segments, and no blank among them. -/
structure IsWord (word : String) : Prop where
  nonempty : word ≠ ""
  segmentChar : ∀ c ∈ word.toList, isSegmentChar c = true
  solid : ∀ c ∈ word.toList, Text.isBlank c = false

def Root.Writable : Root → Prop
  | .context => True
  | .data name => IsWord name

structure Writable (path : Path) : Prop where
  root : path.root.Writable
  segments : ∀ segment ∈ path.segments, IsWord segment

def Root.written : Root → List Char
  | .context => ['t', 'h', 'i', 's']
  | .data name => '@' :: name.toList

def writtenLevels (levels : Nat) : List Char :=
  (List.replicate levels ['.', '.', '/']).flatten

def written (path : Path) : List Char :=
  writtenLevels path.parents ++
    (path.root.written ++ (path.segments.map String.toList).flatMap ('.' :: ·))

theorem IsWord.isSegment {word : String} (isWord : IsWord word) : IsSegment word :=
  ⟨isWord.nonempty, isWord.segmentChar⟩

/-- A character that may stand in a tag: no blank and no brace. -/
def IsPlain (c : Char) : Prop :=
  Text.isBlank c = false ∧ c ≠ '{' ∧ c ≠ '}'

private theorem IsWord.isPlain
    {word : String} (isWord : IsWord word) {c : Char} (member : c ∈ word.toList) :
    IsPlain c := by
  have segmentChar := isWord.segmentChar c member
  refine ⟨isWord.solid c member, ?_, ?_⟩
  · intro same
    rw [same] at segmentChar
    exact absurd segmentChar (by decide)
  · intro same
    rw [same] at segmentChar
    exact absurd segmentChar (by decide)

theorem Root.isPlain_of_mem_written
    {root : Root} (writable : root.Writable) {c : Char} (member : c ∈ root.written) :
    IsPlain c := by
  cases root with
  | context =>
      simp only [Root.written, List.mem_cons, List.not_mem_nil, or_false] at member
      rcases member with rfl | rfl | rfl | rfl <;> exact ⟨by decide, by decide, by decide⟩
  | data name =>
      rcases List.mem_cons.mp member with rfl | member
      · exact ⟨by decide, by decide, by decide⟩
      · exact IsWord.isPlain writable member

theorem isPlain_of_mem_written
    {path : Path} (writable : path.Writable) {c : Char} (member : c ∈ path.written) :
    IsPlain c := by
  rcases List.mem_append.mp member with climbs | member
  · obtain ⟨level, replicated, inside⟩ := List.mem_flatten.mp climbs
    rw [List.eq_of_mem_replicate replicated] at inside
    simp only [List.mem_cons, List.not_mem_nil, or_false] at inside
    rcases inside with rfl | rfl | rfl <;> exact ⟨by decide, by decide, by decide⟩
  · rcases List.mem_append.mp member with starts | follows
    · exact Root.isPlain_of_mem_written writable.root starts
    · obtain ⟨_, mapped, inside⟩ := List.mem_flatMap.mp follows
      obtain ⟨segment, listed, rfl⟩ := List.mem_map.mp mapped
      rcases List.mem_cons.mp inside with rfl | inside
      · exact ⟨by decide, by decide, by decide⟩
      · exact (writable.segments segment listed).isPlain inside

theorem exists_head_written (path : Path) :
    ∃ c rest, path.written = c :: rest ∧ (c = '.' ∨ c = 't' ∨ c = '@') := by
  obtain ⟨parents, root, segments⟩ := path
  cases parents with
  | succ levels => exact ⟨'.', _, rfl, .inl rfl⟩
  | zero =>
      cases root with
      | context => exact ⟨'t', _, rfl, .inr (.inl rfl)⟩
      | data name => exact ⟨'@', _, rfl, .inr (.inr rfl)⟩

theorem Writable.named {path : Path} (writable : path.Writable) : path.Named := by
  obtain ⟨parents, root, segments⟩ := path
  refine ⟨?_, fun segment listed => (writable.segments segment listed).isSegment⟩
  cases root with
  | context => trivial
  | data name => exact IsWord.isSegment writable.root

theorem denotes_writtenLevels
    (levels : Nat) {text : List Char} {root : Root} {segments : List String}
    (below : Below text ⟨0, root, segments⟩) :
    Denotes (writtenLevels levels ++ text) ⟨levels, root, segments⟩ := by
  induction levels with
  | zero => exact .here below
  | succ levels inductionHypothesis =>
      have split : writtenLevels (levels + 1) ++ text =
          '.' :: '.' :: '/' :: (writtenLevels levels ++ text) := rfl
      rw [split]
      exact .outward inductionHypothesis

theorem start_data
    {name : String} {segments : List String} (nameSegment : IsSegment name)
    (isSegment : ∀ segment ∈ segments, IsSegment segment) :
    Start ('@' :: (name.toList ++ (segments.map String.toList).flatMap ('.' :: ·)))
      (.data name) segments := by
  cases segments with
  | nil =>
      rw [List.map_nil, List.flatMap_nil, List.append_nil]
      exact .data nameSegment
  | cons first others =>
      rw [List.map_cons, List.flatMap_cons, List.cons_append]
      exact .dataMembers nameSegment (.inl rfl) (members_flatMap isSegment)

theorem below_written
    {root : Root} {segments : List String} (named : root.Named)
    (isSegment : ∀ segment ∈ segments, IsSegment segment) :
    Below (root.written ++ (segments.map String.toList).flatMap ('.' :: ·))
      ⟨0, root, segments⟩ := by
  cases root with
  | data name => exact .of_data (start_data named isSegment)
  | context =>
      cases segments with
      | nil => exact .this
      | cons first others =>
          have mention : ['t', 'h', 'i', 's', '.'] ∈ mentions := .head _
          have below := Below.mentioned mention (.members (members_flatMap isSegment))
          exact below

/-- A path written out reads back. -/
theorem readChars_written {path : Path} (writable : path.Writable) :
    readChars path.written = .ok path := by
  have named := writable.named
  exact (denotes_writtenLevels path.parents (below_written named.root named.segments)).readChars

end Stencil.Path
