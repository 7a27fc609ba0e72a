import Stencil.Proofs.Text.Bytes
import Stencil.Text.Escape

/-!
Escaped texts. Escaping puts an entity in place of each of seven characters and nothing else, so
no markup is left, every ampersand starts an entity, and the text can be read back. The same
text comes about when the bytes are gone through and the stretches between those seven
characters are copied as they are.
-/

namespace Stencil.Text

/-- The characters that do not stand for themselves, and their entities. -/
def entities : List (Char × String) :=
  [('&', "&amp;"), ('<', "&lt;"), ('>', "&gt;"), ('"', "&quot;"), ('\'', "&#x27;"),
    ('\x60', "&#x60;"), ('=', "&#x3D;")]

def substitute (c : Char) : String :=
  (entities.lookup c).getD c.toString

private theorem entity_eq_substitute (c : Char) : entity c = substitute c := by
  unfold entity
  split
  case h_8 amp lt gt quot apos tick equal =>
    have plain : entities.lookup c = none := by
      rw [List.lookup_eq_none_iff]
      simpa [entities] using ⟨amp, lt, gt, quot, apos, tick, equal⟩
    rw [substitute, plain]
    rfl
  all_goals rfl

private theorem mem_entities_of_lookup
    {c : Char} {entity : String} (found : entities.lookup c = some entity) :
    (c, entity) ∈ entities := by
  obtain ⟨before, after, split, _⟩ := List.lookup_eq_some_iff.mp found
  rw [split]
  exact List.mem_append_right before List.mem_cons_self

private theorem entity_of_lookup
    {c : Char} {text : String} (found : entities.lookup c = some text) :
    entity c = text := by
  rw [entity_eq_substitute, substitute, found]
  rfl

private theorem mem_entities_or_plain (c : Char) :
    (c, entity c) ∈ entities ∨ entities.lookup c = none := by
  cases found : entities.lookup c with
  | none => exact .inr rfl
  | some text =>
      rw [entity_of_lookup found]
      exact .inl (mem_entities_of_lookup found)

private theorem toList_entity_of_plain {c : Char} (plain : entities.lookup c = none) :
    (entity c).toList = [c] := by
  rw [entity_eq_substitute, substitute, plain]
  exact String.toList_singleton c

private theorem exists_tail_of_mem_entities {entry : Char × String} (member : entry ∈ entities) :
    ∃ tail, entry.2.toList = '&' :: tail ∧ ∀ c ∈ tail, entities.lookup c = none := by
  have listed : ∀ entry ∈ entities,
      entry.2.toList.head? = some '&' ∧
        entry.2.toList.tail.all (fun c => (entities.lookup c).isNone) = true := by decide
  obtain ⟨starts, plain⟩ := listed entry member
  refine ⟨_, List.eq_cons_of_mem_head? starts, fun c inTail => ?_⟩
  exact Option.isNone_iff_eq_none.mp (List.all_eq_true.mp plain c inTail)

private theorem toList_escape (text : String) :
    (escape text).toList = text.toList.flatMap fun c => (entity c).toList := by
  have general : ∀ (characters : List Char) (start : String),
      (characters.foldl (fun out c => out ++ entity c) start).toList =
        start.toList ++ characters.flatMap fun c => (entity c).toList := by
    intro characters
    induction characters with
    | nil => simp
    | cons c rest inductionHypothesis =>
        intro start
        rw [List.foldl_cons, inductionHypothesis, String.toList_append, List.append_assoc,
          List.flatMap_cons]
  exact general text.toList ""

private theorem escape_eq_join (text : String) :
    escape text = String.join (text.toList.map substitute) := by
  apply String.toList_injective
  rw [toList_escape, String.toList_join, List.flatMap_map]
  simp only [entity_eq_substitute]

private theorem escape_append (first second : String) :
    escape (first ++ second) = escape first ++ escape second := by
  rw [escape, escapeInto_append, escapeInto_eq_append]
  rfl

private theorem escapeInto_singleton (out : String) (c : Char) :
    escapeInto out (String.ofList [c]) = out ++ entity c := by
  simp [escapeInto]

private theorem escapeInto_of_plain
    (out : String) {text : List Char} (plain : ∀ c ∈ text, entities.lookup c = none) :
    escapeInto out (String.ofList text) = out ++ String.ofList text := by
  have same : (escape (String.ofList text)).toList = text := by
    rw [toList_escape, String.toList_ofList]
    calc text.flatMap (fun c => (entity c).toList)
        = text.flatMap fun c => [c] :=
          List.flatMap_congr fun c member => toList_entity_of_plain (plain c member)
      _ = text := List.flatMap_singleton' text
  rw [escapeInto_eq_append, ← String.ofList_toList (s := escape _), same]

/-! ## Markup -/

/-- The characters that can start, end or divide a tag, an attribute or its value. -/
def markup : List Char := ['<', '>', '"', '\'', '\x60', '=']

def Harmless (text : String) : Prop :=
  ∀ c ∈ markup, c ∉ text.toList

private theorem harmless_entity (c : Char) : Harmless (entity c) := by
  have special {mark : Char} (member : mark ∈ markup) : entities.lookup mark ≠ none := by
    have all : markup.all (fun mark => (entities.lookup mark).isSome) = true := by decide
    exact Option.isSome_iff_ne_none.mp (List.all_eq_true.mp all mark member)
  intro mark member inText
  rcases mem_entities_or_plain c with listed | plain
  · obtain ⟨tail, spelled, plain⟩ := exists_tail_of_mem_entities listed
    rw [spelled, List.mem_cons] at inText
    rcases inText with rfl | inTail
    · exact absurd member (by decide)
    · exact special member (plain mark inTail)
  · rw [toList_entity_of_plain plain, List.mem_singleton] at inText
    rw [inText] at member
    exact special member plain

theorem harmless_escape (text : String) : Harmless (escape text) := by
  intro mark member inText
  rw [toList_escape, List.mem_flatMap] at inText
  obtain ⟨c, _, inEntity⟩ := inText
  exact harmless_entity c mark member inEntity

/-! ## Reading back -/

/-- The character of an entity that a text starts with, and the text behind the entity. -/
def readEntity? (text : List Char) : Option (Char × List Char) :=
  entities.findSome? fun entry =>
    (text.dropPrefix? entry.2.toList).map fun rest => (entry.1, rest)

private theorem exists_of_readEntity?
    {text rest : List Char} {c : Char} (found : readEntity? text = some (c, rest)) :
    ∃ tail, text = '&' :: (tail ++ rest) := by
  obtain ⟨entry, member, read⟩ := List.exists_of_findSome?_eq_some found
  obtain ⟨after, dropped, same⟩ := Option.map_eq_some_iff.mp read
  obtain ⟨start, split, equal⟩ := List.dropPrefix?_eq_some_iff.mp dropped
  obtain ⟨tail, spelled, _⟩ := exists_tail_of_mem_entities member
  obtain ⟨_, rfl⟩ := Prod.mk.inj same
  refine ⟨tail, ?_⟩
  rw [split, eq_of_beq equal, spelled, List.cons_append]

private theorem length_lt_of_readEntity?
    {text rest : List Char} {c : Char} (found : readEntity? text = some (c, rest)) :
    rest.length < text.length := by
  obtain ⟨tail, rfl⟩ := exists_of_readEntity? found
  rw [List.length_cons, List.length_append]
  omega

/-- A text with the character of each entity in place of the entity. -/
def decode (text : List Char) : List Char :=
  match text with
  | [] => []
  | c :: rest =>
      match _ : readEntity? (c :: rest) with
      | some (mark, after) => mark :: decode after
      | none => c :: decode rest
termination_by text.length
decreasing_by
  · rename_i found
    exact length_lt_of_readEntity? found
  · exact Nat.lt_succ_self rest.length

private theorem decode_of_mem_entities
    {entry : Char × String} (member : entry ∈ entities) (rest : List Char) :
    decode (entry.2.toList ++ rest) = entry.1 :: decode rest := by
  have reads : readEntity? (entry.2.toList ++ rest) = some (entry.1, rest) := by
    revert entry
    simp [readEntity?, entities, List.dropPrefix?]
  obtain ⟨tail, spelled, _⟩ := exists_tail_of_mem_entities member
  rw [spelled, List.cons_append] at reads ⊢
  rw [decode]
  split
  · rename_i mark after found
    obtain ⟨rfl, rfl⟩ := Prod.mk.inj (Option.some.inj (found.symm.trans reads))
    rfl
  · rename_i missing
    exact nomatch missing.symm.trans reads

private theorem decode_cons_of_plain
    {c : Char} (plain : entities.lookup c = none) (rest : List Char) :
    decode (c :: rest) = c :: decode rest := by
  rw [decode]
  split
  · rename_i mark after found
    obtain ⟨tail, starts⟩ := exists_of_readEntity? found
    rw [(List.cons.inj starts).1] at plain
    exact absurd plain (by decide)
  · rfl

/-- Decoding gives an escaped text back. -/
theorem decode_escape (text : String) : decode (escape text).toList = text.toList := by
  rw [toList_escape]
  induction text.toList with
  | nil => rw [List.flatMap_nil, decode]
  | cons c rest inductionHypothesis =>
      rw [List.flatMap_cons]
      rcases mem_entities_or_plain c with listed | plain
      · rw [decode_of_mem_entities listed, inductionHypothesis]
      · rw [toList_entity_of_plain plain, List.singleton_append, decode_cons_of_plain plain,
          inductionHypothesis]

/-- Every ampersand of an escaped text starts an entity. -/
theorem prefix_of_escape_eq
    {text : String} {before after : List Char}
    (split : (escape text).toList = before ++ '&' :: after) :
    ∃ entry ∈ entities, entry.2.toList <+: '&' :: after := by
  have ampersand : entities.lookup '&' ≠ none := by decide
  rw [toList_escape] at split
  generalize text.toList = characters at split
  induction characters generalizing before with
  | nil => exact absurd split.symm (List.append_ne_nil_of_right_ne_nil _ (List.cons_ne_nil _ _))
  | cons c rest inductionHypothesis =>
      rw [List.flatMap_cons, List.append_eq_append_iff] at split
      -- The ampersand comes after what stands for the first character, or is in it.
      rcases split with ⟨_, _, later⟩ | ⟨own, here, behind⟩
      · exact inductionHypothesis later
      cases own with
      | nil => exact @inductionHypothesis [] behind.symm
      | cons first others =>
          obtain ⟨rfl, rfl⟩ := List.cons.inj behind
          rcases mem_entities_or_plain c with listed | plain
          · obtain ⟨tail, spelled, tailPlain⟩ := exists_tail_of_mem_entities listed
            cases before with
            | nil => exact ⟨_, listed, here ▸ List.prefix_append _ _⟩
            | cons head inner =>
                have inTail : '&' ∈ tail := by
                  rw [(List.cons.inj (spelled.symm.trans here)).2]
                  exact List.mem_append_right inner List.mem_cons_self
                exact absurd (tailPlain '&' inTail) ampersand
          · have inside : '&' ∈ (entity c).toList := by
              rw [here]
              exact List.mem_append_right before List.mem_cons_self
            rw [toList_entity_of_plain plain, List.mem_singleton] at inside
            exact absurd (inside ▸ plain) ampersand

/-! ## Byte by byte -/

def byteEntities : List (UInt8 × String) :=
  entities.map fun entry => (entry.1.toUInt8, entry.2)

private theorem utf8Size_of_mem_entities : ∀ entry ∈ entities, entry.1.utf8Size = 1 := by
  decide

private theorem lookup_byteEntities {c : Char} (short : c.utf8Size = 1) :
    byteEntities.lookup c.toUInt8 = entities.lookup c := by
  have general : ∀ list : List (Char × String), (∀ entry ∈ list, entry.1.utf8Size = 1) →
      (list.map fun entry => (entry.1.toUInt8, entry.2)).lookup c.toUInt8 = list.lookup c := by
    intro list allShort
    induction list with
    | nil => rfl
    | cons entry rest inductionHypothesis =>
        rw [List.forall_mem_cons] at allShort
        rw [List.map_cons, List.lookup_cons, List.lookup_cons, inductionHypothesis allShort.2]
        by_cases same : c = entry.1
        · rw [same, beq_self_eq_true, beq_self_eq_true]
        · have apart : c.toUInt8 ≠ entry.1.toUInt8 := fun equal =>
            same (toUInt8_inj short allShort.1 equal)
          rw [beq_false_of_ne same, beq_false_of_ne apart]
  exact general entities utf8Size_of_mem_entities

private theorem lookup_byteEntities_of_le {byte : UInt8} (high : 128 ≤ byte.toNat) :
    byteEntities.lookup byte = none := by
  have low : ∀ entry ∈ byteEntities, entry.1.toNat < 128 := by decide
  rw [List.lookup_eq_none_iff]
  intro entry member
  rw [bne_iff_ne]
  rintro rfl
  exact absurd (low entry member) (Nat.not_lt.mpr high)

private theorem foldlM_of_forall_eq
    {α β : Type} {items : List α} {take : β → α → Option β} {state : β}
    (skips : ∀ item ∈ items, take state item = some state) :
    items.foldlM take state = some state := by
  induction items with
  | nil => rfl
  | cons item rest inductionHypothesis =>
      rw [List.forall_mem_cons] at skips
      rw [List.foldlM_cons, skips.1]
      exact inductionHypothesis skips.2

/-- None of the bytes of a character without an entity has one. -/
theorem lookup_byteEntities_of_plain
    {c : Char} (plain : entities.lookup c = none) {byte : UInt8}
    (member : byte ∈ String.utf8EncodeChar c) : byteEntities.lookup byte = none := by
  by_cases short : c.utf8Size = 1
  · rw [String.utf8EncodeChar_eq_singleton short, List.mem_singleton] at member
    rw [member]
    exact (lookup_byteEntities short).trans plain
  · exact lookup_byteEntities_of_le (le_of_mem_utf8EncodeChar short member)

/-- A text that is being copied with entities in place of some of its bytes: what is written so
far, and the offset of the first byte that is not in it. -/
structure Copy where
  out : String
  start : Nat

/-- Takes up a byte at an offset. A byte without an entity is left for later; before an entity
the bytes that were left are copied, which fails where they are no part of the text. -/
def Copy.take (text : String) (copy : Copy) (entry : UInt8 × Nat) : Option Copy :=
  match byteEntities.lookup entry.1 with
  | none => some copy
  | some entity =>
      (slice? text copy.start entry.2).map fun part => ⟨copy.out ++ part ++ entity, entry.2 + 1⟩

def escapeBytes (out text : String) : Option String :=
  ((bytes text).zipIdx.foldlM (Copy.take text) ⟨out, 0⟩).bind fun copy =>
    (slice? text copy.start text.utf8ByteSize).map fun part => copy.out ++ part

/-- Whether a copy has got as far as some characters: it holds them escaped, except for some at
the end that have no entities. -/
def Copy.Holds (out : String) (done : List Char) (copy : Copy) : Prop :=
  ∃ copied left, done = copied ++ left ∧ copy.start = byteLength copied ∧
    copy.out = escapeInto out (String.ofList copied) ∧ ∀ c ∈ left, entities.lookup c = none

namespace Copy.Holds

variable {out text : String} {done todo : List Char} {copy : Copy}

theorem start (out : String) : Copy.Holds out [] ⟨out, 0⟩ :=
  ⟨[], [], rfl, rfl, rfl, fun _ member => absurd member List.not_mem_nil⟩

/-- The characters that are left make a slice, and with them the copy is complete. -/
theorem slice
    (holds : copy.Holds out done) (split : text.toList = done ++ todo) :
    ∃ part, slice? text copy.start (byteLength done) = some part ∧
      copy.out ++ part = escapeInto out (String.ofList done) := by
  obtain ⟨copied, left, rfl, begins, written, plain⟩ := holds
  refine ⟨String.ofList left, ?_, ?_⟩
  · rw [begins, byteLength_append]
    exact slice?_of_split split
  · rw [written, ← escapeInto_of_plain _ plain, ← escapeInto_append, String.ofList_append]

theorem take
    {c : Char} (holds : copy.Holds out done) (split : text.toList = done ++ c :: todo) :
    ∃ next, ((String.utf8EncodeChar c).zipIdx (byteLength done)).foldlM (Copy.take text) copy =
        some next ∧ next.Holds out (done ++ [c]) := by
  cases found : entities.lookup c with
  -- No byte has an entity, so the character joins those that are left.
  | none =>
      have skips : ∀ entry ∈ (String.utf8EncodeChar c).zipIdx (byteLength done),
          Copy.take text copy entry = some copy := by
        intro entry member
        have inside := List.fst_mem_of_mem_zipIdx member
        rw [Copy.take, lookup_byteEntities_of_plain found inside]
      refine ⟨copy, ?_, ?_⟩
      · exact foldlM_of_forall_eq skips
      · obtain ⟨copied, left, rfl, begins, written, plain⟩ := holds
        refine ⟨copied, left ++ [c], List.append_assoc _ _ _, begins, written, ?_⟩
        rw [List.forall_mem_append, List.forall_mem_singleton]
        exact ⟨plain, found⟩
  -- The only byte copies what is left and puts the entity behind it.
  | some entity =>
      have short := utf8Size_of_mem_entities _ (mem_entities_of_lookup found)
      obtain ⟨part, sliced, whole⟩ := holds.slice split
      refine ⟨⟨copy.out ++ part ++ entity, byteLength done + 1⟩, ?_, done ++ [c], [], ?_⟩
      · have byte : byteEntities.lookup c.val.toUInt8 = some entity :=
          (lookup_byteEntities short).trans found
        rw [String.utf8EncodeChar_eq_singleton short, List.zipIdx_singleton, List.foldlM_cons,
          Copy.take, byte]
        dsimp only
        rw [sliced]
        rfl
      · refine ⟨(List.append_nil _).symm, ?_, ?_, fun _ member => absurd member List.not_mem_nil⟩
        · rw [byteLength_append, byteLength_cons, byteLength_nil, short]
        · rw [whole, String.ofList_append, escapeInto_append, escapeInto_singleton,
            entity_of_lookup found]

private theorem takeAll
    (holds : copy.Holds out done) (split : text.toList = done ++ todo) :
    ∃ last, ((todo.flatMap String.utf8EncodeChar).zipIdx (byteLength done)).foldlM
        (Copy.take text) copy = some last ∧ last.Holds out text.toList := by
  induction todo generalizing done copy with
  | nil =>
      rw [List.append_nil] at split
      rw [split]
      exact ⟨copy, rfl, holds⟩
  | cons c rest inductionHypothesis =>
      obtain ⟨next, taken, nextHolds⟩ := holds.take split
      have further : text.toList = (done ++ [c]) ++ rest := by
        rw [split, List.append_assoc, List.singleton_append]
      have later := inductionHypothesis nextHolds further
      rw [List.flatMap_cons, List.zipIdx_append, List.foldlM_append, taken,
        String.length_utf8EncodeChar]
      rw [byteLength_append, byteLength_cons, byteLength_nil, Nat.add_zero] at later
      exact later

end Copy.Holds

/-- Byte by byte an escaped text comes about as it does character by character: all stretches
that are copied lie between characters. -/
theorem escapeBytes_eq (out text : String) :
    escapeBytes out text = some (escapeInto out text) := by
  have split : text.toList = [] ++ text.toList := rfl
  obtain ⟨last, taken, holds⟩ := (Copy.Holds.start out).takeAll split
  obtain ⟨part, sliced, whole⟩ := holds.slice (List.append_nil text.toList).symm
  have all : bytes text = text.toList.flatMap String.utf8EncodeChar := by
    rw [← bytes_ofList, String.ofList_toList]
  rw [byteLength_nil] at taken
  rw [byteLength_eq_utf8Len, String.utf8Len_toList] at sliced
  rw [escapeBytes, all, taken, Option.bind_some, sliced, Option.map_some, whole,
    String.ofList_toList]

/-- Escaping appends to a buffer what stands for each character, and can be undone. The bytewise
copy takes slices of the text only. -/
theorem escapeInto_reversible (out text : String) :
    escapeBytes out text = some (escapeInto out text) ∧
      escapeInto out text = out ++ String.join (text.toList.map substitute) ∧
      (∀ more, escape (text ++ more) = escape text ++ escape more) ∧
      (∀ c ∈ markup, c ∉ (escape text).toList) ∧
      (∀ before after, (escape text).toList = before ++ '&' :: after →
        ∃ entry ∈ entities, entry.2.toList <+: '&' :: after) ∧
      decode (escape text).toList = text.toList ∧
      ∀ other, escape other = escape text → other = text := by
  refine ⟨escapeBytes_eq out text, ?_, escape_append text, harmless_escape text,
    fun _ _ => prefix_of_escape_eq, decode_escape text, ?_⟩
  · rw [escapeInto_eq_append, escape_eq_join]
  · intro other same
    apply String.toList_injective
    rw [← decode_escape, same, decode_escape]

/-- A text that looks escaped already is escaped once more, and read back it is the same. -/
theorem escapeInto_reversible_entity :
    let text := "é&lt;="
    escapeBytes "<" text = some "<é&amp;lt;&#x3D;" ∧
      escape text = "é&amp;lt;&#x3D;" ∧
      (∃ entry ∈ entities, entry.2.toList <+: "&#x3D;".toList) ∧
      decode (escape text).toList = "é&lt;=".toList ∧
      ∀ other, escape other = "é&amp;lt;&#x3D;" → other = text := by
  intro text
  obtain ⟨copied, _, _, _, starts, decoded, injective⟩ := escapeInto_reversible "<" text
  have escaped : escape text = "é&amp;lt;&#x3D;" := by decide +kernel
  have into : escapeInto "<" text = "<é&amp;lt;&#x3D;" := by decide +kernel
  refine ⟨copied.trans (congrArg some into), escaped, ?_, decoded, ?_⟩
  · apply starts "é&amp;lt;".toList
    rw [escaped]
    rfl
  · exact fun other same => injective other (same.trans escaped.symm)

end Stencil.Text
