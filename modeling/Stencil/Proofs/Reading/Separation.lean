import Stencil.Proofs.Document.Settling
import Stencil.Proofs.Reading.Strict
import Stencil.Proofs.Token.Tiling
import Stencil.Service.Basic

/-!
Documents that are read from sources. A source is cut so that a tag stands between any two runs
of text, and a document read without a fault has a node for every one of its tags; so trimming
such a document once is enough.
-/

namespace Stencil

namespace Token

/-- After a run of text comes a tag, all along a source. -/
theorem isChain_pieces (text : List Char) :
    (pieces text).IsChain fun first second => ¬ (first.kind = .text ∧ second.kind = .text) := by
  fun_induction pieces text with
  | case1 => exact List.isChain_nil
  | case2 text _ inductionHypothesis =>
      by_cases last : (readPiece text).2 = []
      · rw [last, pieces_nil]
        exact List.isChain_singleton _
      · rw [pieces_of_ne_nil last] at inductionHypothesis ⊢
        refine List.isChain_cons_cons.mpr ⟨?_, inductionHypothesis⟩
        rintro ⟨run, next⟩
        have tag := isTag_after_run run last
        rw [next] at tag
        exact Bool.noConfusion tag

private theorem isChain_content (source : String) :
    (content source).IsChain fun first second =>
      ¬ (first.kind = .text ∧ second.kind = .text) := by
  have kinds := map_kind_lay .start (pieces source.toList)
  have apart := isChain_pieces source.toList
  rw [← List.isChain_map Piece.kind
    (R := fun first second => ¬ (first = .text ∧ second = .text)), ← kinds,
    List.isChain_map] at apart
  rw [content_eq_lay]
  exact apart

end Token

namespace Grammar

private theorem Leaf.kind_of_isText
    {token : Token} {node : Node} (leaf : Leaf token node) (text : node.isText = true) :
    token.kind = .text := by
  cases leaf with
  | text kind => exact kind
  | comment | escaped | raw | partialTag | scopedPartialTag => exact Bool.noConfusion text

private theorem Leaf.sections_eq_nil
    {token : Token} {node : Node} (leaf : Leaf token node) :
    node.sections = [] := by
  cases leaf <;> rw [Node.sections]

variable {table : BlockTable} {tokens : List Token} {nodes : List Node}

private theorem Section.exists_text
    (derived : Section table tokens nodes) {node : Node} (first : nodes.head? = some node)
    (text : node.isText = true) :
    ∃ token, tokens.head? = some token ∧ token.kind = .text := by
  cases derived with
  | nil => exact nomatch first
  | leaf leaf _ =>
      rw [← Option.some.inj first] at text
      exact ⟨_, List.head?_cons, leaf.kind_of_isText text⟩
  | block | dividedBlock =>
      rw [← Option.some.inj first] at text
      exact Bool.noConfusion text

private theorem Section.separatedWithin
    (derived : Section table tokens nodes)
    (apart : tokens.IsChain fun first second => ¬ (first.kind = .text ∧ second.kind = .text)) :
    Node.SeparatedWithin nodes := by
  induction derived with
  | nil => exact Node.separatedWithin_nil
  | @leaf token node tokens nodes leaf rest inductionHypothesis =>
      refine Node.separatedWithin_cons_iff.mpr ⟨?_, ?_, inductionHypothesis apart.tail⟩
      · rintro next first ⟨nodeText, nextText⟩
        obtain ⟨other, head, otherKind⟩ := rest.exists_text first nextText
        obtain ⟨others, rfl⟩ := List.head?_eq_some_iff.mp head
        exact (List.isChain_cons_cons.mp apart).1 ⟨leaf.kind_of_isText nodeText, otherKind⟩
      · rw [leaf.sections_eq_nil]
        exact List.forall_mem_nil _
  | @block opening closing helper argument bodyTokens tokens body nodes _ _ _ _ bodyHypothesis
      restHypothesis =>
      have after : (bodyTokens ++ closing :: tokens).IsChain _ := apart.tail
      refine Node.separatedWithin_cons_iff.mpr ⟨fun _ _ both => Bool.noConfusion both.1, ?_,
        restHypothesis after.right_of_append.tail⟩
      exact Node.forall_mem_sections_block_iff.mpr
        ⟨bodyHypothesis after.left_of_append, Node.separatedWithin_nil⟩
  | @dividedBlock opening middle closing helper argument bodyTokens inverseTokens tokens body
      inverse nodes _ _ _ _ _ _ bodyHypothesis inverseHypothesis restHypothesis =>
      have after : (bodyTokens ++ middle :: (inverseTokens ++ closing :: tokens)).IsChain _ :=
        apart.tail
      have later : (inverseTokens ++ closing :: tokens).IsChain _ := after.right_of_append.tail
      refine Node.separatedWithin_cons_iff.mpr ⟨fun _ _ both => Bool.noConfusion both.1, ?_,
        restHypothesis later.right_of_append.tail⟩
      exact Node.forall_mem_sections_block_iff.mpr
        ⟨bodyHypothesis after.left_of_append, inverseHypothesis later.left_of_append⟩

end Grammar

namespace Document

private theorem separated_of_read
    {table : BlockTable} {source : String} {document : Document}
    (accepted : read table source = .ok document) :
    document.Separated :=
  (section_of_read accepted).separatedWithin (Token.isChain_content source)

private theorem compile_standard (table : BlockTable) (source : String) :
    Compiler.compile ⟨read table, .standard⟩ source =
      (read table source).map collapseWhitespace := rfl

/-- Trimming is idempotent on documents without neighbouring texts; reading gives no others, so
trimming a compiled source again changes nothing. -/
theorem collapseWhitespace_idempotent :
    (∀ document : Document, document.Separated →
      document.collapseWhitespace.collapseWhitespace = document.collapseWhitespace) ∧
    ∀ (table : BlockTable) (source : String) (document : Document),
      (read table source = .ok document → document.Separated) ∧
      (Compiler.compile ⟨read table, .standard⟩ source = .ok document →
        document.collapseWhitespace = document) := by
  refine ⟨fun _ separated => separated.collapseWhitespace_collapseWhitespace, ?_⟩
  intro table source document
  refine ⟨separated_of_read, ?_⟩
  intro compiled
  rw [compile_standard] at compiled
  cases accepted : read table source with
  | error diagnostics =>
      rw [accepted] at compiled
      exact nomatch compiled
  | ok parsed =>
      rw [accepted] at compiled
      have trimmed : parsed.collapseWhitespace = document := Except.ok.inj compiled
      rw [← trimmed]
      exact (separated_of_read accepted).collapseWhitespace_collapseWhitespace

/-- A list whose text around the items is blank, with marks at all of its tags. -/
theorem collapseWhitespace_idempotent_items :
    let source := "x " ++ Fault.tagText "~#each xs~" ++ " " ++ Fault.tagText "this" ++ " " ++
      Fault.tagText "~/each~" ++ " y"
    let tags : BlockTags :=
      ⟨"each", ⟨0, .context, ["xs"]⟩, ⟨true, true⟩, .unmarked, ⟨true, true⟩, ⟨⟨1, 3⟩, 14⟩⟩
    let item : Node := .expression .current true .unmarked ⟨⟨1, 18⟩, 8⟩
    let document : Document :=
      ⟨[.text "x " ⟨⟨1, 1⟩, 2⟩,
        .block tags [.text " " ⟨⟨1, 17⟩, 1⟩, item, .text " " ⟨⟨1, 26⟩, 1⟩] none,
        .text " y" ⟨⟨1, 38⟩, 2⟩]⟩
    let trimmed : Document :=
      ⟨[.text "x" ⟨⟨1, 1⟩, 2⟩, .block tags [item] none, .text "y" ⟨⟨1, 38⟩, 2⟩]⟩
    read .builtin source = .ok document ∧ document.Separated ∧
      document.collapseWhitespace.collapseWhitespace = document.collapseWhitespace ∧
      Compiler.compile ⟨read .builtin, .standard⟩ source = .ok trimmed ∧
      trimmed.collapseWhitespace = trimmed := by
  intro source tags item document trimmed
  have accepted : read .builtin source = .ok document := by decide +kernel
  have once : document.collapseWhitespace = trimmed := by
    rw [collapseWhitespace_eq_trimmed]
    decide +kernel
  have compiled : Compiler.compile ⟨read .builtin, .standard⟩ source = .ok trimmed := by
    rw [compile_standard, accepted, Except.map, once]
  obtain ⟨settles, reading⟩ := collapseWhitespace_idempotent
  have separated := (reading .builtin source document).1 accepted
  exact ⟨accepted, separated, settles document separated, compiled,
    (reading .builtin source trimmed).2 compiled⟩

end Document

end Stencil
