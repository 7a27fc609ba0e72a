import Mathlib.Data.List.TakeWhile
import Stencil.Path.Reader
import Stencil.Proofs.Text.Blank

/-!
The grammar of paths. A path climbs levels by `../`, and then is a climb by `..`, the current
value by `this` or `.`, or a data variable or members, before which the current value may be
mentioned once. Reading accepts the texts of this grammar and no others, and gives the path that
the text denotes.
-/

namespace Stencil.Path

/-- A name of a member or of a data variable: characters of segments, and at least one. -/
structure IsSegment (segment : String) : Prop where
  nonempty : segment ≠ ""
  segmentChar : ∀ c ∈ segment.toList, isSegmentChar c = true

/-- Segments with a point or a slash between each two. -/
inductive Members : List Char → List String → Prop
  | last {segment : String} :
      IsSegment segment →
      Members segment.toList [segment]
  | next {segment : String} {separator : Char} {rest : List Char} {segments : List String} :
      IsSegment segment →
      separator = '.' ∨ separator = '/' →
      Members rest segments →
      Members (segment.toList ++ separator :: rest) (segment :: segments)

/-- Where a path starts and the members that it follows from there. -/
inductive Start : List Char → Root → List String → Prop
  | data {name : String} :
      IsSegment name →
      Start ('@' :: name.toList) (.data name) []
  | dataMembers {name : String} {separator : Char} {rest : List Char}
      {segments : List String} :
      IsSegment name →
      separator = '.' ∨ separator = '/' →
      Members rest segments →
      Start ('@' :: (name.toList ++ separator :: rest)) (.data name) segments
  | members {text : List Char} {segments : List String} :
      Members text segments →
      Start text .context segments

/-- The mentions of the current value that more of a path can follow. -/
def mentions : List (List Char) :=
  [['t', 'h', 'i', 's', '.'], ['t', 'h', 'i', 's', '/'], ['.', '/']]

/-- What a text denotes below the levels that it climbs. A mention that is there is taken, and
`this` alone is no member. -/
inductive Below : List Char → Path → Prop
  | outer : Below ['.', '.'] ⟨1, .context, []⟩
  | point : Below ['.'] ⟨0, .context, []⟩
  | this : Below ['t', 'h', 'i', 's'] ⟨0, .context, []⟩
  | mentioned {mention rest : List Char} {root : Root} {segments : List String} :
      mention ∈ mentions →
      Start rest root segments →
      Below (mention ++ rest) ⟨0, root, segments⟩
  | direct {text : List Char} {root : Root} {segments : List String} :
      text ≠ ['t', 'h', 'i', 's'] →
      (∀ mention ∈ mentions, ¬ mention <+: text) →
      Start text root segments →
      Below text ⟨0, root, segments⟩

def Root.Named : Root → Prop
  | .context => True
  | .data name => IsSegment name

structure Named (path : Path) : Prop where
  root : path.root.Named
  segments : ∀ segment ∈ path.segments, IsSegment segment

def outward (path : Path) : Path :=
  ⟨path.parents + 1, path.root, path.segments⟩

/-- What a text denotes. The levels that it climbs come first, and all of them are taken, since
nothing below them starts with a level. -/
inductive Denotes : List Char → Path → Prop
  | here {text : List Char} {path : Path} :
      Below text path →
      Denotes text path
  | outward {text : List Char} {path : Path} :
      Denotes text path →
      Denotes ('.' :: '.' :: '/' :: text) path.outward

private theorem isSeparator_iff {c : Char} : isSeparator c = true ↔ c = '.' ∨ c = '/' := by
  rw [isSeparator, Bool.or_eq_true, beq_iff_eq, beq_iff_eq]

private theorem mem_mentions_iff {mention : List Char} :
    mention ∈ mentions ↔
      mention = ['t', 'h', 'i', 's', '.'] ∨ mention = ['t', 'h', 'i', 's', '/'] ∨
        mention = ['.', '/'] := by
  rw [mentions, List.mem_cons, List.mem_cons, List.mem_singleton]

private theorem forall_mem_mentions_iff {holds : List Char → Prop} :
    (∀ mention ∈ mentions, holds mention) ↔
      holds ['t', 'h', 'i', 's', '.'] ∧ holds ['t', 'h', 'i', 's', '/'] ∧ holds ['.', '/'] := by
  rw [mentions, List.forall_mem_cons, List.forall_mem_cons, List.forall_mem_singleton]

/-! ## Segments -/

theorem IsSegment.toList_ne_nil {segment : String} (isSegment : IsSegment segment) :
    segment.toList ≠ [] := by
  intro empty
  apply isSegment.nonempty
  rw [← String.ofList_toList (s := segment), empty, String.ofList_nil]

private theorem IsSegment.not_isSeparator
    {segment : String} (isSegment : IsSegment segment) {c : Char}
    (member : c ∈ segment.toList) : isSeparator c = false := by
  cases separator : isSeparator c with
  | false => rfl
  | true =>
      have segmentChar := isSegment.segmentChar c member
      rw [not_isSegmentChar_of_isSeparator separator] at segmentChar
      exact Bool.noConfusion segmentChar

private theorem isSegment_ofList_iff {text : List Char} :
    IsSegment (String.ofList text) ↔ text ≠ [] ∧ text.all isSegmentChar = true := by
  rw [List.all_eq_true]
  constructor
  · intro isSegment
    have nonempty := isSegment.toList_ne_nil
    have segmentChar := isSegment.segmentChar
    rw [String.toList_ofList] at nonempty segmentChar
    exact ⟨nonempty, segmentChar⟩
  · rintro ⟨nonempty, segmentChar⟩
    refine ⟨?_, ?_⟩
    · intro empty
      apply nonempty
      rw [← String.toList_ofList (l := text), empty]
      rfl
    · rw [String.toList_ofList]
      exact segmentChar

private theorem readSegment_eq_ok_iff {text : List Char} {segment : String} :
    readSegment text = .ok segment ↔ IsSegment segment ∧ text = segment.toList := by
  rw [readSegment]
  constructor
  · intro read
    split at read
    · exact nomatch read
    rename_i nonempty
    split at read
    · exact nomatch read
    split at read
    · rename_i segmentChars
      obtain rfl := Except.ok.inj read
      refine ⟨isSegment_ofList_iff.mpr ⟨?_, segmentChars⟩, String.toList_ofList.symm⟩
      rintro rfl
      exact nonempty rfl
    · exact nomatch read
  · rintro ⟨isSegment, rfl⟩
    have level : segment.toList ≠ ['.', '.'] := by
      intro same
      have point : '.' ∈ segment.toList := by
        rw [same]
        exact List.mem_cons_self
      exact absurd (isSegment.not_isSeparator point) (by decide)
    rw [← String.ofList_toList (s := segment), isSegment_ofList_iff] at isSegment
    rw [if_neg (by simpa using isSegment.1), if_neg level, if_pos isSegment.2,
      String.ofList_toList]

theorem Members.readSegments
    {text : List Char} {segments : List String} (members : Members text segments) :
    readSegments text = .ok segments := by
  induction members with
  | last isSegment =>
      rw [Path.readSegments, Text.fields_of_solid fun c => isSegment.not_isSeparator,
        List.mapM_cons, readSegment_eq_ok_iff.mpr ⟨isSegment, rfl⟩]
      rfl
  | next isSegment separates _ inductionHypothesis =>
      rw [Path.readSegments] at inductionHypothesis ⊢
      rw [Text.fields_append_separator (fun c => isSegment.not_isSeparator)
          (isSeparator_iff.mpr separates),
        List.mapM_cons, readSegment_eq_ok_iff.mpr ⟨isSegment, rfl⟩, inductionHypothesis]
      rfl

private theorem exists_of_bind_eq_ok
    {α β : Type} {first : Except Flaw α} {later : α → Except Flaw β} {result : β}
    (bound : first.bind later = .ok result) :
    ∃ value, first = .ok value ∧ later value = .ok result := by
  cases first with
  | error flaw => exact nomatch bound
  | ok value => exact ⟨value, rfl, bound⟩

private theorem exists_of_map_eq_ok
    {α β : Type} {first : Except Flaw α} {change : α → β} {result : β}
    (mapped : first.map change = .ok result) :
    ∃ value, first = .ok value ∧ change value = result := by
  cases first with
  | error flaw => exact nomatch mapped
  | ok value => exact ⟨value, rfl, Except.ok.inj mapped⟩

private theorem members_of_readSegments
    {text : List Char} {segments : List String} (read : readSegments text = .ok segments) :
    Members text segments := by
  rw [readSegments] at read
  generalize split : Text.fields isSeparator text = pieces at read
  induction pieces generalizing text segments with
  | nil => exact absurd split (Text.fields_ne_nil isSeparator text)
  | cons piece others inductionHypothesis =>
      rw [List.mapM_cons] at read
      obtain ⟨segment, first, read⟩ := exists_of_bind_eq_ok read
      obtain ⟨rest, later, read⟩ := exists_of_bind_eq_ok read
      obtain rfl := Except.ok.inj read
      obtain ⟨isSegment, rfl⟩ := readSegment_eq_ok_iff.mp first
      rcases Text.cases_of_fields_eq_cons split with
        ⟨rfl, rfl⟩ | ⟨separator, after, separates, rfl, restSplit⟩
      · obtain rfl := Except.ok.inj later
        exact .last isSegment
      · exact .next isSegment (isSeparator_iff.mp separates)
          (inductionHypothesis restSplit later)

/-- Members start with the first segment, and what follows it starts with a separator. -/
theorem Members.exists_append
    {text : List Char} {segments : List String} (members : Members text segments) :
    ∃ first others rest, segments = first :: others ∧ IsSegment first ∧
      text = first.toList ++ rest ∧ ∀ c, rest.head? = some c → isSeparator c = true := by
  cases members with
  | last isSegment => exact ⟨_, [], [], rfl, isSegment, (List.append_nil _).symm, nofun⟩
  | next isSegment separates _ =>
      refine ⟨_, _, _, rfl, isSegment, rfl, ?_⟩
      intro c head
      rw [← Option.some.inj head]
      exact isSeparator_iff.mpr separates

private theorem Members.exists_head
    {text : List Char} {segments : List String} (members : Members text segments) :
    ∃ c rest, text = c :: rest ∧ isSegmentChar c = true := by
  obtain ⟨first, _, rest, _, isSegment, rfl, _⟩ := members.exists_append
  obtain ⟨c, others, split⟩ := List.exists_cons_of_ne_nil isSegment.toList_ne_nil
  refine ⟨c, others ++ rest, ?_, isSegment.segmentChar c ?_⟩
  · rw [split, List.cons_append]
  · rw [split]
    exact List.mem_cons_self

theorem Members.isSegment
    {text : List Char} {segments : List String} (members : Members text segments) :
    ∀ segment ∈ segments, IsSegment segment := by
  induction members with
  | last isSegment => exact List.forall_mem_singleton.mpr isSegment
  | next isSegment _ _ inductionHypothesis =>
      exact List.forall_mem_cons.mpr ⟨isSegment, inductionHypothesis⟩

theorem members_flatMap
    {first : String} {others : List String}
    (isSegment : ∀ segment ∈ first :: others, IsSegment segment) :
    Members (first.toList ++ (others.map String.toList).flatMap ('.' :: ·))
      (first :: others) := by
  induction others generalizing first with
  | nil =>
      rw [List.map_nil, List.flatMap_nil, List.append_nil]
      exact .last (isSegment first List.mem_cons_self)
  | cons second rest inductionHypothesis =>
      rw [List.forall_mem_cons] at isSegment
      rw [List.map_cons, List.flatMap_cons, List.cons_append]
      exact .next isSegment.1 (.inl rfl) (inductionHypothesis isSegment.2)

/-- Members are no mention when the first of them is not called `this`. -/
theorem Members.no_mention
    {text : List Char} {segments : List String} (members : Members text segments)
    (apart : segments.head? ≠ some "this") :
    text ≠ ['t', 'h', 'i', 's'] ∧ ∀ mention ∈ mentions, ¬ mention <+: text := by
  obtain ⟨first, others, rest, rfl, isSegment, split, separated⟩ := members.exists_append
  -- The first segment is what stands before the first separator.
  have piece : (text.takeWhile fun c => !isSeparator c) = first.toList := by
    rw [split, List.takeWhile_append_of_pos fun c member => by
      rw [isSegment.not_isSeparator member, Bool.not_false]]
    cases rest with
    | nil => rw [List.takeWhile_nil, List.append_nil]
    | cons c after =>
        rw [List.takeWhile_cons_of_neg (by simpa using separated c rfl), List.append_nil]
  have noThis : first.toList ≠ ['t', 'h', 'i', 's'] := by
    intro same
    apply apart
    rw [List.head?_cons, ← String.ofList_toList (s := first), same]
  rw [← piece] at noThis
  constructor
  · rintro rfl
    exact noThis rfl
  · refine forall_mem_mentions_iff.mpr ⟨?_, ?_, ?_⟩
    · rintro ⟨after, rfl⟩
      exact noThis rfl
    · rintro ⟨after, rfl⟩
      exact noThis rfl
    · rintro ⟨after, rfl⟩
      exact isSegment.toList_ne_nil piece.symm

/-! ## Starts -/

private theorem Start.exists_head
    {text : List Char} {root : Root} {segments : List String}
    (start : Start text root segments) :
    ∃ c rest, text = c :: rest ∧ (c = '@' ∨ isSegmentChar c = true) := by
  cases start with
  | data isSegment => exact ⟨'@', _, rfl, .inl rfl⟩
  | dataMembers isSegment separates members => exact ⟨'@', _, rfl, .inl rfl⟩
  | members members =>
      obtain ⟨c, rest, split, segmentChar⟩ := members.exists_head
      exact ⟨c, rest, split, .inr segmentChar⟩

theorem Start.named
    {text : List Char} {root : Root} {segments : List String}
    (start : Start text root segments) :
    root.Named ∧ ∀ segment ∈ segments, IsSegment segment := by
  cases start with
  | data isSegment => exact ⟨isSegment, nofun⟩
  | dataMembers isSegment _ members => exact ⟨isSegment, members.isSegment⟩
  | members members => exact ⟨trivial, members.isSegment⟩

theorem Start.readStart
    {text : List Char} {root : Root} {segments : List String}
    (start : Start text root segments) :
    readStart text = .ok (root, segments) := by
  have inside {name : String} (isSegment : IsSegment name) :
      ∀ c ∈ name.toList, (!isSeparator c) = true := by
    intro c member
    rw [isSegment.not_isSeparator member]
    rfl
  have named {name : String} (isSegment : IsSegment name) :
      (name.toList.isEmpty || !name.toList.all isSegmentChar) = false := by
    rw [← String.ofList_toList (s := name), isSegment_ofList_iff] at isSegment
    rw [isSegment.2]
    simpa using isSegment.1
  cases start with
  | data isSegment =>
      rw [Path.readStart, List.takeWhile_eq_self_iff.mpr (inside isSegment), named isSegment,
        List.dropWhile_eq_nil_iff.mpr (inside isSegment), String.ofList_toList]
      rfl
  | @dataMembers name separator rest _ isSegment separates members =>
      have outside : (!isSeparator separator) = false := by
        rw [isSeparator_iff.mpr separates]
        rfl
      rw [Path.readStart, List.takeWhile_append_of_pos (inside isSegment),
        List.dropWhile_append_of_pos (inside isSegment), List.takeWhile_cons,
        List.dropWhile_cons, outside]
      simp only [Bool.false_eq_true, if_false, List.append_nil, named isSegment,
        members.readSegments, String.ofList_toList]
      rfl
  | members members =>
      obtain ⟨c, rest, rfl, segmentChar⟩ := members.exists_head
      have noData : c ≠ '@' := by
        rintro rfl
        exact absurd segmentChar (by decide)
      unfold Path.readStart
      split
      · rename_i same
        exact absurd (List.cons.inj same).1 noData
      · rw [members.readSegments]
        rfl

private theorem start_of_readStart_data
    {rest : List Char} {root : Root} {segments : List String}
    (read : readStart ('@' :: rest) = .ok (root, segments)) :
    Start ('@' :: rest) root segments := by
  rw [readStart] at read
  have split := List.takeWhile_append_dropWhile (p := fun c => !isSeparator c) (l := rest)
  have head := List.head?_dropWhile_not (fun c => !isSeparator c) rest
  generalize rest.takeWhile (fun c => !isSeparator c) = characters at read split
  generalize rest.dropWhile (fun c => !isSeparator c) = later at read split head
  obtain ⟨name, rfl⟩ : ∃ name : String, name.toList = characters :=
    ⟨String.ofList characters, String.toList_ofList⟩
  subst split
  split at read
  · exact nomatch read
  rename_i named
  rw [Bool.or_eq_true, not_or, Bool.not_eq_true', Bool.not_eq_false] at named
  have isSegment : IsSegment name := by
    rw [← String.ofList_toList (s := name), isSegment_ofList_iff]
    exact ⟨by simpa using named.1, named.2⟩
  rw [String.ofList_toList] at read
  cases later with
  | nil =>
      obtain ⟨rfl, rfl⟩ := Prod.mk.inj (Except.ok.inj read)
      rw [List.append_nil]
      exact .data isSegment
  | cons separator after =>
      have separates : isSeparator separator = true := by simpa using head
      obtain ⟨found, members, same⟩ := exists_of_map_eq_ok read
      obtain ⟨rfl, rfl⟩ := Prod.mk.inj same
      exact .dataMembers isSegment (isSeparator_iff.mp separates)
        (members_of_readSegments members)

private theorem start_of_readStart
    {text : List Char} {root : Root} {segments : List String}
    (read : readStart text = .ok (root, segments)) : Start text root segments := by
  by_cases data : ∃ rest, text = '@' :: rest
  · obtain ⟨rest, rfl⟩ := data
    exact start_of_readStart_data read
  · unfold readStart at read
    split at read
    · exact absurd ⟨_, rfl⟩ data
    · obtain ⟨found, members, same⟩ := exists_of_map_eq_ok read
      obtain ⟨rfl, rfl⟩ := Prod.mk.inj same
      exact .members (members_of_readSegments members)

/-- Of a text below the levels either a mention is dropped, or there is none. -/
theorem dropCurrent_cases (text : List Char) :
    (∃ mention ∈ mentions, text = mention ++ dropCurrent text) ∨
      dropCurrent text = text ∧ ∀ mention ∈ mentions, ¬ mention <+: text := by
  unfold dropCurrent
  split
  · exact .inl ⟨_, .head _, rfl⟩
  · exact .inl ⟨_, .tail _ (.head _), rfl⟩
  · exact .inl ⟨_, .tail _ (.tail _ (.head _)), rfl⟩
  · rename_i noPoint noSlash noPointSlash
    refine .inr ⟨rfl, forall_mem_mentions_iff.mpr ⟨?_, ?_, ?_⟩⟩
    · rintro ⟨rest, rfl⟩
      exact noPoint rest rfl
    · rintro ⟨rest, rfl⟩
      exact noSlash rest rfl
    · rintro ⟨rest, rfl⟩
      exact noPointSlash rest rfl

private theorem dropCurrent_mention
    {mention : List Char} (member : mention ∈ mentions) (rest : List Char) :
    dropCurrent (mention ++ rest) = rest := by
  rcases mem_mentions_iff.mp member with rfl | rfl | rfl <;> rfl

/-- What stands below the levels does not start with another one. -/
theorem Below.climb_eq {text : List Char} {path : Path} (below : Below text path) :
    climb text = (0, text) := by
  cases below with
  | outer => rfl
  | point => rfl
  | this => rfl
  | mentioned member start =>
      rcases mem_mentions_iff.mp member with rfl | rfl | rfl <;> rfl
  | direct _ _ start =>
      obtain ⟨c, rest, rfl, head⟩ := start.exists_head
      unfold climb
      split
      · rename_i same
        rw [(List.cons.inj same).1] at head
        exact absurd head (by decide)
      · rfl

private theorem readBelow_of_start
    {text : List Char} {root : Root} {segments : List String}
    (noLevel : text ≠ ['.', '.']) (noThis : text ≠ ['t', 'h', 'i', 's']) (noPoint : text ≠ ['.'])
    (start : Start (dropCurrent text) root segments) :
    readBelow 0 text = .ok ⟨0, root, segments⟩ := by
  rw [readBelow, if_neg noLevel, if_neg (not_or.mpr ⟨noThis, noPoint⟩), start.readStart]
  rfl

theorem Below.readBelow {text : List Char} {path : Path} (below : Below text path) :
    readBelow 0 text = .ok path := by
  cases below with
  | outer => rfl
  | point => rfl
  | this => rfl
  | mentioned member start =>
      have dropped := dropCurrent_mention member
      obtain ⟨c, others, rfl, _⟩ := start.exists_head
      rw [← dropped (c :: others)] at start
      rcases mem_mentions_iff.mp member with rfl | rfl | rfl <;>
        exact readBelow_of_start (by simp) (by simp) (by simp) start
  | direct noThis noMention start =>
      obtain ⟨c, rest, split, head⟩ := start.exists_head
      have noPoint : c ≠ '.' := by
        rintro rfl
        exact absurd head (by decide)
      have kept : dropCurrent text = text := by
        rcases dropCurrent_cases text with ⟨mention, member, split⟩ | ⟨kept, _⟩
        · exact absurd ⟨_, split.symm⟩ (noMention mention member)
        · exact kept
      rw [← kept] at start
      refine readBelow_of_start ?_ noThis ?_ start
      · rw [split]
        exact fun same => noPoint (List.cons.inj same).1
      · rw [split]
        exact fun same => noPoint (List.cons.inj same).1

private theorem below_of_readBelow
    {text : List Char} {path : Path} (read : readBelow 0 text = .ok path) :
    Below text path := by
  rw [readBelow] at read
  split at read
  · rename_i level
    rw [level, ← Except.ok.inj read]
    exact .outer
  split at read
  · rename_i current
    rw [← Except.ok.inj read]
    rcases current with rfl | rfl
    · exact .this
    · exact .point
  · rename_i noCurrent
    obtain ⟨⟨root, segments⟩, found, rfl⟩ := exists_of_map_eq_ok read
    have start := start_of_readStart found
    rcases dropCurrent_cases text with ⟨mention, member, split⟩ | ⟨kept, noMention⟩
    · rw [split]
      exact .mentioned member start
    · rw [kept] at start
      exact .direct (not_or.mp noCurrent).1 noMention start

theorem Below.named {text : List Char} {path : Path} (below : Below text path) :
    path.Named := by
  cases below with
  | outer | point | this => exact ⟨trivial, nofun⟩
  | mentioned _ start | direct _ _ start => exact ⟨start.named.1, start.named.2⟩

theorem Below.of_data
    {rest : List Char} {root : Root} {segments : List String}
    (start : Start ('@' :: rest) root segments) :
    Below ('@' :: rest) ⟨0, root, segments⟩ :=
  .direct (by simp) (forall_mem_mentions_iff.mpr (by simp)) start

/-! ## Paths -/

private theorem readBelow_succ (levels : Nat) (text : List Char) :
    readBelow (levels + 1) text = (readBelow levels text).map outward := by
  rw [readBelow, readBelow]
  split
  · rfl
  split
  · rfl
  · cases readStart (dropCurrent text) <;> rfl

/-- A level in front of a text brings its path one level further out. -/
theorem readChars_outward (text : List Char) :
    readChars ('.' :: '.' :: '/' :: text) = (readChars text).map outward := by
  rw [readChars, climb, readChars]
  exact readBelow_succ _ _

private theorem readChars_of_climb_eq {text : List Char} (here : climb text = (0, text)) :
    readChars text = readBelow 0 text := by
  rw [readChars, here]

theorem Denotes.named {text : List Char} {path : Path} (denotes : Denotes text path) :
    path.Named := by
  induction denotes with
  | here below => exact below.named
  | outward _ inductionHypothesis =>
      exact ⟨inductionHypothesis.root, inductionHypothesis.segments⟩

theorem Denotes.readChars {text : List Char} {path : Path} (denotes : Denotes text path) :
    readChars text = .ok path := by
  induction denotes with
  | here below => rw [readChars_of_climb_eq below.climb_eq, below.readBelow]
  | outward _ inductionHypothesis =>
      rw [readChars_outward, inductionHypothesis]
      rfl

theorem denotes_of_readChars
    {text : List Char} {path : Path} (read : readChars text = .ok path) :
    Denotes text path := by
  induction text using climb.induct generalizing path with
  | case1 rest levels below climbed inductionHypothesis =>
      rw [readChars_outward] at read
      obtain ⟨inner, innerRead, rfl⟩ := exists_of_map_eq_ok read
      exact .outward (inductionHypothesis innerRead)
  | case2 text noLevel =>
      have here : climb text = (0, text) := by
        unfold climb
        split
        · exact absurd rfl (noLevel _)
        · rfl
      rw [readChars_of_climb_eq here] at read
      exact .here (below_of_readBelow read)

/-- Reading accepts the texts that denote a path, and gives the path that they denote. -/
theorem readChars_eq_ok_iff {text : List Char} {path : Path} :
    readChars text = .ok path ↔ Denotes text path :=
  ⟨denotes_of_readChars, Denotes.readChars⟩

/-! ## Late climbs -/

private theorem exists_of_mapM_eq_error
    {α β : Type} {change : α → Except Flaw β} {items : List α} {flaw : Flaw}
    (fails : items.mapM change = .error flaw) :
    ∃ item ∈ items, change item = .error flaw := by
  induction items with
  | nil => cases fails
  | cons item rest inductionHypothesis =>
      rw [List.mapM_cons] at fails
      cases first : change item with
      | error other =>
          rw [first] at fails
          obtain rfl := Except.error.inj fails
          exact ⟨item, List.mem_cons_self, first⟩
      | ok value =>
          rw [first] at fails
          cases later : rest.mapM change with
          | ok values =>
              rw [later] at fails
              cases fails
          | error other =>
              rw [later] at fails
              obtain rfl := Except.error.inj fails
              obtain ⟨found, member, same⟩ := inductionHypothesis later
              exact ⟨found, List.mem_cons_of_mem item member, same⟩

private theorem eq_level_of_readSegment_eq_lateClimb
    {text : List Char} (fails : readSegment text = .error .lateClimb) : text = ['.', '.'] := by
  rw [readSegment] at fails
  by_cases empty : text.isEmpty = true
  · rw [if_pos empty] at fails
    exact Flaw.noConfusion (Except.error.inj fails)
  rw [if_neg empty] at fails
  by_cases level : text = ['.', '.']
  · exact level
  rw [if_neg level] at fails
  split at fails
  · cases fails
  · exact Flaw.noConfusion (Except.error.inj fails)

private theorem readSegments_ne_lateClimb (text : List Char) :
    readSegments text ≠ .error .lateClimb := by
  intro fails
  obtain ⟨piece, member, fails⟩ := exists_of_mapM_eq_error fails
  obtain rfl := eq_level_of_readSegment_eq_lateClimb fails
  have inside : isSeparator '.' = false :=
    Text.not_separates_of_mem_fields member List.mem_cons_self
  exact absurd inside (by decide)

private theorem map_ne_error
    {α β : Type} {result : Except Flaw α} {flaw : Flaw} (other : result ≠ .error flaw)
    (change : α → β) : result.map change ≠ .error flaw := by
  cases result with
  | ok value => simp [Except.map]
  | error found => exact fun same => other (congrArg Except.error (Except.error.inj same))

private theorem readStart_ne_lateClimb (text : List Char) :
    readStart text ≠ .error .lateClimb := by
  unfold readStart
  split
  · dsimp only
    split
    · simp
    · split
      · simp
      · exact map_ne_error (readSegments_ne_lateClimb _) _
  · exact map_ne_error (readSegments_ne_lateClimb _) _

/-- No text is ever reported for a level below the start of its path. -/
theorem read_ne_lateClimb (text : String) : read text ≠ .error .lateClimb := by
  rw [read, readChars]
  dsimp only
  rw [readBelow]
  split
  · simp
  split
  · simp
  · exact map_ne_error (readStart_ne_lateClimb _) _

end Stencil.Path
