import Stencil.Proofs.Builder.Run
import Stencil.Proofs.Path.Grammar

/-!
Paths in tags. A tag reads its path by the grammar of paths; any other text is an invalid path,
reported at the place of the tag.
-/

namespace Stencil

/-- Whether a text is what a tag reads as a path. -/
inductive Token.Asks (token : Token) : String → Prop
  | escaped {text : String} :
      token.kind = .escaped →
      token.words = [text] →
      Asks token text
  | raw {text : String} :
      token.kind = .raw →
      token.words = [text] →
      Asks token text
  | argument {helper text : String} {others : List String} :
      token.kind = .blockOpen →
      token.words = helper :: text :: others →
      Asks token text
  | scope {name text : String} {others : List String} :
      token.kind = .partialTag →
      token.words = name :: text :: others →
      Asks token text

namespace Builder

private theorem readPath_eq_ok_iff {text : String} {path : Path} :
    readPath text = .ok path ↔ Path.Denotes text.toList path := by
  rw [← Path.readChars_eq_ok_iff, readPath, Path.read]
  cases Path.readChars text.toList with
  | error flaw => simp [Except.mapError]
  | ok found =>
      rw [Except.mapError, Except.ok.injEq, Except.ok.injEq]

private theorem exists_flaw_of_not_denotes
    {text : String} (nothing : ¬ ∃ path, Path.Denotes text.toList path) :
    ∃ flaw, readPath text = .error (.invalidPath text flaw) := by
  rw [readPath_eq]
  cases read : Path.read text with
  | error flaw => exact ⟨flaw, rfl⟩
  | ok path => exact absurd ⟨path, Path.denotes_of_readChars read⟩ nothing

private theorem exists_diagnostics_report_append
    (builder : Builder) (span : Span) (faults : List Fault) (fault : Fault) :
    ∃ others, (builder.report span (faults ++ [fault])).diagnostics.toList =
      builder.diagnostics.toList ++ others ++ [⟨fault, span⟩] := by
  refine ⟨faults.map fun fault => ⟨fault, span⟩, ?_⟩
  rw [report_diagnostics, List.map_append, List.append_assoc]
  rfl

private theorem expression_of_refused
    (builder : Builder) {token : Token} {text : String} {fault : Fault}
    (words : token.words = [text]) (refused : readPath text = .error fault) (escaped : Bool) :
    builder.expression token escaped = builder.report token.span [fault] := by
  rw [expression, words]
  dsimp only
  rw [refused]

private theorem callPartial_of_refused
    (builder : Builder) {token : Token} {name text : String} {others : List String}
    {fault : Fault} (words : token.words = name :: text :: others)
    (refused : readPath text = .error fault) :
    builder.callPartial token =
      builder.report token.span (surplus token 1 (text :: others) ++ [fault]) := by
  rw [callPartial, words]
  dsimp only
  rw [refused]
  exact report_report builder token.span _ _

private theorem entryFaults_of_refused
    (table : BlockTable) (depth : Nat) (token : Token) (helper : String) {text : String}
    (others : List String) {fault : Fault} (refused : readPath text = .error fault) :
    ∃ faults, entryFaults table depth token helper (text :: others) = faults ++ [fault] := by
  rw [entryFaults, blockArgument, refused]
  exact ⟨_, rfl⟩

/-- A tag whose path cannot be read reports this after its other faults, at its own place. -/
theorem diagnostics_step_of_refused
    (table : BlockTable) (builder : Builder) {token : Token} {text : String} {fault : Fault}
    (asks : token.Asks text) (refused : readPath text = .error fault) :
    ∃ others, (step table builder token).diagnostics.toList =
      builder.diagnostics.toList ++ others ++ [⟨fault, token.span⟩] := by
  have reports := exists_diagnostics_report_append builder token.span
  cases asks with
  | escaped kind words | raw kind words =>
      rw [step, kind]
      dsimp only
      rw [expression_of_refused builder words refused]
      exact reports [] fault
  | @argument helper _ others kind words =>
      obtain ⟨faults, last⟩ :=
        entryFaults_of_refused table builder.blocks.length token helper others refused
      rw [step, kind]
      dsimp only
      rw [openBlock_eq_enter words, enter, last]
      exact reports faults fault
  | scope kind words =>
      rw [step, kind]
      dsimp only
      rw [callPartial_of_refused builder words refused]
      exact reports _ fault

/-- A text is read as the path that it denotes. Any other text is an invalid path, and a tag
that asks for it reports this at its own place. -/
theorem readPath_by_grammar (text : String) :
    (∀ path, readPath text = .ok path ↔ Path.Denotes text.toList path) ∧
      ((¬ ∃ path, Path.Denotes text.toList path) →
        ∃ flaw, readPath text = .error (.invalidPath text flaw) ∧
          ∀ table builder token, token.Asks text →
            ∃ others, (step table builder token).diagnostics.toList =
              builder.diagnostics.toList ++ others ++
                [⟨.invalidPath text flaw, token.span⟩]) := by
  refine ⟨fun path => readPath_eq_ok_iff, fun nothing => ?_⟩
  obtain ⟨flaw, refused⟩ := exists_flaw_of_not_denotes nothing
  refine ⟨flaw, refused, fun table builder token asks => ?_⟩
  exact diagnostics_step_of_refused table builder asks refused

/-- An empty segment in the argument of a block. -/
theorem readPath_by_grammar_argument :
    let token : Token := ⟨.blockOpen, "if a..b c", .unmarked, ⟨⟨2, 5⟩, 15⟩⟩
    (¬ ∃ path, Path.Denotes "a..b".toList path) ∧ token.Asks "a..b" ∧
      ∃ flaw others, readPath "a..b" = .error (.invalidPath "a..b" flaw) ∧
        (step .builtin .empty token).diagnostics.toList =
          others ++ [⟨.invalidPath "a..b" flaw, ⟨⟨2, 5⟩, 15⟩⟩] := by
  intro token
  have nothing : ¬ ∃ path, Path.Denotes "a..b".toList path := by
    rintro ⟨path, denotes⟩
    have refused : Path.readChars "a..b".toList = .error .emptySegment := by decide +kernel
    exact nomatch refused.symm.trans denotes.readChars
  have words : token.words = ["if", "a..b", "c"] := by decide +kernel
  have asks : token.Asks "a..b" := .argument rfl words
  obtain ⟨flaw, refused, reported⟩ := (readPath_by_grammar "a..b").2 nothing
  obtain ⟨others, diagnostics⟩ := reported .builtin .empty token asks
  exact ⟨nothing, asks, flaw, others, refused, diagnostics⟩

end Builder

end Stencil
