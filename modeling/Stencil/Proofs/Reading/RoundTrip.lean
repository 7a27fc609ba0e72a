import Stencil.Proofs.Document.Writing
import Stencil.Proofs.Reading.Strict

/-!
Writing a document and reading it gives the document back, but for its places. Each node is
written as pieces that the source falls into again whatever follows, and these pieces are read
into the node wherever they stand.
-/

namespace Stencil

open Grammar

/-- Pieces that are read into some nodes, but for the places, wherever they stand. -/
def Spells (table : BlockTable) (pieces : List Token.Piece) (nodes : List Node) : Prop :=
  ∀ place, ∃ placed,
    Section table (Token.lay place pieces) placed ∧
      Node.mapSpanNodes Span.erase placed = Node.mapSpanNodes Span.erase nodes

namespace Spells

variable {table : BlockTable}

theorem nil : Spells table [] [] :=
  fun _ => ⟨[], .nil, rfl⟩

theorem append
    {first second : List Token.Piece} {firstNodes secondNodes : List Node}
    (start : Spells table first firstNodes) (rest : Spells table second secondNodes) :
    Spells table (first ++ second) (firstNodes ++ secondNodes) := by
  intro place
  obtain ⟨placed, derived, same⟩ := start place
  obtain ⟨restPlaced, restDerived, restSame⟩ :=
    rest (place.advance (first.flatMap Token.Piece.source))
  refine ⟨placed ++ restPlaced, ?_, ?_⟩
  · rw [Token.lay_append]
    exact derived.append restDerived
  · rw [Node.mapSpanNodes_append, Node.mapSpanNodes_append, same, restSame]

theorem leaf
    {piece : Token.Piece} {node : Node}
    (reads : ∀ place, ∃ placed,
      Leaf (piece.token place) placed ∧ placed.mapSpan Span.erase = node.mapSpan Span.erase) :
    Spells table [piece] [node] := by
  intro place
  obtain ⟨placed, leaf, same⟩ := reads place
  refine ⟨[placed], .single leaf, ?_⟩
  rw [Node.mapSpanNodes, Node.mapSpanNodes, same]
  rfl

theorem block
    {opening closing : Token.Piece} {pieces : List Token.Piece} {tags : BlockTags}
    {body : List Node}
    (opens : ∀ place, Opens table (opening.token place) tags.helper tags.argument)
    (openingTrim : opening.trim = tags.opening)
    (spells : Spells table pieces body) (unmarked : tags.middle = .unmarked)
    (closes : ∀ place, Closes (closing.token place) tags.helper)
    (closingTrim : closing.trim = tags.closing) :
    Spells table (opening :: (pieces ++ [closing])) [.block tags body none] := by
  intro place
  obtain ⟨placed, derived, same⟩ := spells (place.advance opening.source)
  let span := (opening.token place).span
  refine ⟨[.block ⟨tags.helper, tags.argument, opening.trim, .unmarked, closing.trim, span⟩
    placed none], ?_, ?_⟩
  · rw [Token.lay, Token.lay_append]
    exact .block (opens place) derived (closes _) .nil
  · simp only [Node.mapSpanNodes, Node.mapSpan, Node.mapSpanInverse, same, openingTrim,
      closingTrim, ← unmarked, Span.erase]

theorem dividedBlock
    {opening middle closing : Token.Piece} {pieces inversePieces : List Token.Piece}
    {tags : BlockTags} {body inverse : List Node}
    (opens : ∀ place, Opens table (opening.token place) tags.helper tags.argument)
    (openingTrim : opening.trim = tags.opening)
    (spells : Spells table pieces body)
    (divides : ∀ place, Divides (middle.token place))
    (middleTrim : middle.trim = tags.middle)
    (inverseSpells : Spells table inversePieces inverse)
    (closes : ∀ place, Closes (closing.token place) tags.helper)
    (closingTrim : closing.trim = tags.closing) :
    Spells table (opening :: (pieces ++ middle :: (inversePieces ++ [closing])))
      [.block tags body (some inverse)] := by
  intro place
  obtain ⟨placed, derived, same⟩ := spells (place.advance opening.source)
  obtain ⟨inversePlaced, inverseDerived, inverseSame⟩ :=
    inverseSpells
      (((place.advance opening.source).advance (pieces.flatMap Token.Piece.source)).advance
        middle.source)
  let span := (opening.token place).span
  refine ⟨[.block ⟨tags.helper, tags.argument, opening.trim, middle.trim, closing.trim, span⟩
    placed (some inversePlaced)], ?_, ?_⟩
  · rw [Token.lay, Token.lay_append, Token.lay, Token.lay_append]
    exact .dividedBlock (opens place) derived (divides _) inverseDerived (closes _) .nil
  · simp only [Node.mapSpanNodes, Node.mapSpan, Node.mapSpanInverse, same, inverseSame,
      openingTrim, middleTrim, closingTrim, Span.erase]

end Spells

private theorem Path.read_ofList_written {path : Path} (writable : path.Writable) :
    read (String.ofList path.written) = .ok path := by
  rw [read, String.toList_ofList, readChars_written writable]

theorem IsName.toList_ne_nil {name : String} (isName : IsName name) : name.toList ≠ [] := by
  simpa using isName.nonempty

theorem IsName.trimmed {name : String} (isName : IsName name) : Text.Trimmed name.toList :=
  Text.trimmed_of_solid isName.solid

/-! ## Tags -/

namespace Token

private theorem pieces_of_readPiece
    {tag rest : List Char} {piece : Piece} (nonempty : tag ≠ [])
    (reads : readPiece (tag ++ rest) = (piece, rest)) :
    pieces (tag ++ rest) = piece :: pieces rest := by
  rw [pieces_of_ne_nil (List.append_ne_nil_of_left_ne_nil nonempty rest), reads]

private theorem classify_of_letter
    {c : Char} {rest : List Char} (letter : c = '.' ∨ c = 't' ∨ c = '@') :
    classify (c :: rest) = (.escaped, c :: rest) := by
  rcases letter with rfl | rfl | rfl <;> rfl

private theorem trimmed_written {path : Path} (writable : path.Writable) :
    Text.Trimmed path.written :=
  Text.trimmed_of_solid fun _ member => (Path.isPlain_of_mem_written writable member).1

private theorem braceless_written {path : Path} (writable : path.Writable) :
    Braceless path.written :=
  braceless_of_noBrace fun _ member => (Path.isPlain_of_mem_written writable member).2

private theorem written_ne_nil (path : Path) : path.written ≠ [] := by
  obtain ⟨c, rest, equal, _⟩ := path.exists_head_written
  rw [equal]
  exact List.cons_ne_nil c rest

private theorem readPiece_signed
    (trim : Trim) {sign : Char} {kind : Kind} {content : List Char}
    (isSign : IsSign [sign]) (solid : Text.isBlank sign = false)
    (meaning : ∀ rest, classify (sign :: rest) = (kind, Text.trim rest))
    (braceless : Braceless content) (trimmed : Text.Trimmed content) (nonempty : content ≠ [])
    (rest : List Char) :
    readPiece (tagText trim [sign] content ++ rest) =
      (⟨kind, content, trim, tagText trim [sign] content⟩, rest) := by
  rw [readPiece_tagText trim isSign braceless, List.singleton_append,
    Text.trim_signed solid nonempty trimmed, meaning, Text.trim_cons_space trimmed]

private theorem readPiece_unsigned
    (trim : Trim) {content : List Char} (braceless : Braceless content)
    (trimmed : Text.Trimmed content) (rest : List Char) :
    readPiece (tagText trim [] content ++ rest) =
      (⟨(classify content).1, (classify content).2, trim, tagText trim [] content⟩, rest) := by
  rw [readPiece_tagText trim (.inl rfl) braceless, List.nil_append, Text.trim_spaced trimmed]

private theorem readPiece_run
    {run rest : List Char} (nonempty : run ≠ []) (clear : ¬ ['{', '{'] <:+: run)
    (seam : rest = [] ∨ opensTag rest = true ∧ run.getLast? ≠ some '{') :
    readPiece (run ++ rest) = (⟨.text, run, .unmarked, run⟩, rest) := by
  have upTo := upToTag_append clear seam
  unfold readPiece
  split
  · rename_i later opens
    rw [opens, upToTag_of_opensTag rfl, Prod.mk.injEq] at upTo
    exact absurd upTo.1.symm nonempty
  · rw [upTo]

private theorem words_token
    {kind : Kind} {word : List Char} {trim : Trim} {source : List Char} {place : Position}
    (nonempty : word ≠ []) (solid : ∀ c ∈ word, Text.isBlank c = false) :
    (Piece.token ⟨kind, word, trim, source⟩ place).words = [String.ofList word] := by
  refine words_of_pieces ?_ ?_ ?_
  · simpa using nonempty
  · simpa using solid
  · simp [Piece.token]

private theorem words_token_pair
    {kind : Kind} {first second : List Char} {trim : Trim} {source : List Char}
    {place : Position} (firstNonempty : first ≠ []) (secondNonempty : second ≠ [])
    (firstSolid : ∀ c ∈ first, Text.isBlank c = false)
    (secondSolid : ∀ c ∈ second, Text.isBlank c = false) :
    (Piece.token ⟨kind, first ++ ' ' :: second, trim, source⟩ place).words =
      [String.ofList first, String.ofList second] := by
  refine words_of_pieces ?_ ?_ ?_
  · simpa using ⟨firstNonempty, secondNonempty⟩
  · simpa using ⟨firstSolid, secondSolid⟩
  · simp [Piece.token]

end Token

/-! ## Sources that spell nodes -/

/-- A text from which pieces are cut off before some rest, pieces that spell nodes. -/
def FallsInto (table : BlockTable) (text rest : List Char) (nodes : List Node) : Prop :=
  ∃ pieces, Token.pieces (text ++ rest) = pieces ++ Token.pieces rest ∧ Spells table pieces nodes

namespace FallsInto

variable {table : BlockTable} {rest : List Char}

theorem nil : FallsInto table [] rest [] :=
  ⟨[], rfl, .nil⟩

theorem append
    {first second : List Char} {firstNodes secondNodes : List Node}
    (start : FallsInto table first (second ++ rest) firstNodes)
    (later : FallsInto table second rest secondNodes) :
    FallsInto table (first ++ second) rest (firstNodes ++ secondNodes) := by
  obtain ⟨pieces, cut, spells⟩ := start
  obtain ⟨laterPieces, laterCut, laterSpells⟩ := later
  refine ⟨pieces ++ laterPieces, ?_, spells.append laterSpells⟩
  rw [List.append_assoc, cut, laterCut, List.append_assoc]

theorem leaf
    {text : List Char} {piece : Token.Piece} {node : Node} (nonempty : text ≠ [])
    (reads : Token.readPiece (text ++ rest) = (piece, rest))
    (leaf : ∀ place, ∃ placed,
      Leaf (piece.token place) placed ∧ placed.mapSpan Span.erase = node.mapSpan Span.erase) :
    FallsInto table text rest [node] := by
  refine ⟨[piece], ?_, .leaf leaf⟩
  rw [Token.pieces_of_readPiece nonempty reads, List.singleton_append]

theorem text
    {content : String} (span : Span) (nonempty : content ≠ "")
    (clear : ¬ ['{', '{'] <:+: content.toList)
    (seam : rest = [] ∨
      Token.opensTag rest = true ∧ content.toList.getLast? ≠ some '{') :
    FallsInto table content.toList rest [.text content span] := by
  have nonemptyList : content.toList ≠ [] := by simpa using nonempty
  refine leaf nonemptyList (Token.readPiece_run nonemptyList clear seam) fun place => ?_
  refine ⟨_, .text rfl, ?_⟩
  simp [Token.Piece.token, Node.mapSpan, Span.erase]

theorem comment
    {content : String} (trim : Trim) (span : Span) (trimmed : Text.Trimmed content.toList)
    (clear : ∀ marked, ¬ (Token.remarkTerminator marked).text <:+: content.toList) :
    FallsInto table (Token.remarkText trim content.toList) rest [.comment content trim span] := by
  refine leaf (List.cons_ne_nil _ _) (Token.readPiece_remarkText trim clear trimmed rest)
    fun place => ?_
  refine ⟨_, .comment rfl, ?_⟩
  simp [Token.Piece.token, Node.mapSpan, Span.erase]

theorem expression
    {path : Path} (escaped : Bool) (trim : Trim) (span : Span) (writable : path.Writable) :
    FallsInto table (Token.tagText trim (if escaped then [] else ['&']) path.written) rest
      [.expression path escaped trim span] := by
  have braceless := Token.braceless_written writable
  have trimmed := Token.trimmed_written writable
  have words {kind : Token.Kind} {source : List Char} (place : Position) :
      (Token.Piece.token ⟨kind, path.written, trim, source⟩ place).words =
        [String.ofList path.written] :=
    Token.words_token (Token.written_ne_nil path) fun _ member =>
      (Path.isPlain_of_mem_written writable member).1
  cases escaped with
  | true =>
      have letter : Token.classify path.written = (.escaped, path.written) := by
        obtain ⟨c, others, equal, letter⟩ := path.exists_head_written
        rw [equal]
        exact Token.classify_of_letter letter
      have reads := Token.readPiece_unsigned trim braceless trimmed rest
      rw [letter] at reads
      exact leaf (List.cons_ne_nil _ _) reads fun place =>
        ⟨_, .escaped rfl (words place) (Path.read_ofList_written writable), rfl⟩
  | false =>
      have reads :=
        Token.readPiece_signed trim (.inr ⟨'&', rfl, by decide⟩) (by decide) (fun _ => rfl)
          braceless trimmed (Token.written_ne_nil path) rest
      exact leaf (List.cons_ne_nil _ _) reads fun place =>
        ⟨_, .raw rfl (words place) (Path.read_ofList_written writable), rfl⟩

theorem partialTag
    {name : String} {scope : Option Path} (trim : Trim) (span : Span) (isName : IsName name)
    (writable : ∀ path, scope = some path → path.Writable) :
    FallsInto table (Token.tagText trim ['>'] (name.toList ++ Node.writtenScope scope)) rest
      [.partialTag name scope trim span] := by
  have sign : Token.IsSign ['>'] := .inr ⟨'>', rfl, by decide⟩
  have nameNonempty := isName.toList_ne_nil
  cases scope with
  | none =>
      rw [Node.writtenScope, List.append_nil]
      have reads :=
        Token.readPiece_signed trim sign (by decide) (fun _ => rfl) isName.braceless
          isName.trimmed nameNonempty rest
      refine leaf (List.cons_ne_nil _ _) reads fun place => ?_
      refine ⟨_, .partialTag rfl (Token.words_token nameNonempty isName.solid), ?_⟩
      simp [Node.mapSpan, Span.erase, Token.Piece.token]
  | some path =>
      have pathWritable := writable path rfl
      have pathNonempty := Token.written_ne_nil path
      have reads :=
        Token.readPiece_signed trim sign (by decide) (fun _ => rfl)
          (isName.braceless.append_space (Token.braceless_written pathWritable))
          (isName.trimmed.append_space (Token.trimmed_written pathWritable) nameNonempty
            pathNonempty) (List.append_ne_nil_of_left_ne_nil nameNonempty _) rest
      refine leaf (List.cons_ne_nil _ _) reads fun place => ?_
      refine ⟨_, .scopedPartialTag rfl
        (Token.words_token_pair nameNonempty pathNonempty isName.solid fun _ member =>
          (Path.isPlain_of_mem_written pathWritable member).1)
        (Path.read_ofList_written pathWritable), ?_⟩
      simp [Node.mapSpan, Span.erase, Token.Piece.token]

private theorem exists_opening
    {tags : BlockTags} (isName : IsName tags.helper)
    (known : table.contains tags.helper = true) (writable : tags.argument.Writable)
    (rest : List Char) :
    ∃ opening : Token.Piece,
      Token.pieces
          (Token.tagText tags.opening ['#']
            (tags.helper.toList ++ ' ' :: tags.argument.written) ++ rest) =
        opening :: Token.pieces rest ∧
      opening.trim = tags.opening ∧
      ∀ place, Opens table (opening.token place) tags.helper tags.argument := by
  have nameNonempty := isName.toList_ne_nil
  have pathNonempty := Token.written_ne_nil tags.argument
  have reads :=
    Token.readPiece_signed tags.opening (.inr ⟨'#', rfl, by decide⟩) (by decide) (fun _ => rfl)
      (isName.braceless.append_space (Token.braceless_written writable))
      (isName.trimmed.append_space (Token.trimmed_written writable) nameNonempty pathNonempty)
      (List.append_ne_nil_of_left_ne_nil nameNonempty _) rest
  refine ⟨_, Token.pieces_of_readPiece (List.cons_ne_nil _ _) reads, rfl, fun place => ?_⟩
  have pathSolid : ∀ c ∈ tags.argument.written, Text.isBlank c = false := fun _ member =>
    (Path.isPlain_of_mem_written writable member).1
  refine .argument rfl ?_ known (Path.read_ofList_written writable)
  rw [Token.words_token_pair nameNonempty pathNonempty isName.solid pathSolid,
    String.ofList_toList]

private theorem exists_middle (trim : Trim) (rest : List Char) :
    ∃ middle : Token.Piece,
      Token.pieces (Token.tagText trim [] ['e', 'l', 's', 'e'] ++ rest) =
        middle :: Token.pieces rest ∧
      middle.trim = trim ∧ ∀ place, Divides (middle.token place) := by
  have braceless : Token.Braceless ['e', 'l', 's', 'e'] :=
    Token.braceless_of_noBrace (by simp)
  have trimmed : Text.Trimmed ['e', 'l', 's', 'e'] := rfl
  have reads := Token.readPiece_unsigned trim braceless trimmed rest
  exact ⟨_, Token.pieces_of_readPiece (List.cons_ne_nil _ _) reads, rfl, fun _ => ⟨rfl, rfl⟩⟩

private theorem exists_closing
    (trim : Trim) {helper : String} (isName : IsName helper) (rest : List Char) :
    ∃ closing : Token.Piece,
      Token.pieces (Token.tagText trim ['/'] helper.toList ++ rest) =
        closing :: Token.pieces rest ∧
      closing.trim = trim ∧ ∀ place, Closes (closing.token place) helper := by
  have reads :=
    Token.readPiece_signed trim (.inr ⟨'/', rfl, by decide⟩) (by decide) (fun _ => rfl)
      isName.braceless isName.trimmed isName.toList_ne_nil rest
  exact ⟨_, Token.pieces_of_readPiece (List.cons_ne_nil _ _) reads, rfl,
    fun _ => ⟨rfl, String.ofList_toList⟩⟩

theorem block
    {tags : BlockTags} {body : List Node} (isName : IsName tags.helper)
    (known : table.contains tags.helper = true) (writable : tags.argument.Writable)
    (unmarked : tags.middle = .unmarked)
    (bodyFalls : ∀ rest, Token.opensTag rest = true →
      FallsInto table (Node.writtenNodes body) rest body) :
    FallsInto table (Node.written (.block tags body none)) rest [.block tags body none] := by
  let closingText := Token.tagText tags.closing ['/'] tags.helper.toList
  obtain ⟨pieces, bodyCut, spells⟩ := bodyFalls (closingText ++ rest) rfl
  obtain ⟨opening, openingCut, openingTrim, opens⟩ :=
    exists_opening isName known writable (Node.writtenNodes body ++ (closingText ++ rest))
  obtain ⟨closing, closingCut, closingTrim, closes⟩ := exists_closing tags.closing isName rest
  refine ⟨opening :: (pieces ++ [closing]), ?_,
    .block opens openingTrim spells unmarked closes closingTrim⟩
  rw [Node.written, Node.writtenInverse, List.append_nil, List.append_assoc, List.append_assoc,
    openingCut, bodyCut, closingCut, List.cons_append, List.append_assoc, List.singleton_append]

theorem dividedBlock
    {tags : BlockTags} {body inverse : List Node} (isName : IsName tags.helper)
    (known : table.contains tags.helper = true) (writable : tags.argument.Writable)
    (bodyFalls : ∀ rest, Token.opensTag rest = true →
      FallsInto table (Node.writtenNodes body) rest body)
    (inverseFalls : ∀ rest, Token.opensTag rest = true →
      FallsInto table (Node.writtenNodes inverse) rest inverse) :
    FallsInto table (Node.written (.block tags body (some inverse))) rest
      [.block tags body (some inverse)] := by
  let closingText := Token.tagText tags.closing ['/'] tags.helper.toList
  let middleText := Token.tagText tags.middle [] ['e', 'l', 's', 'e']
  obtain ⟨inversePieces, inverseCut, inverseSpells⟩ := inverseFalls (closingText ++ rest) rfl
  obtain ⟨pieces, bodyCut, spells⟩ :=
    bodyFalls (middleText ++ (Node.writtenNodes inverse ++ (closingText ++ rest))) rfl
  obtain ⟨opening, openingCut, openingTrim, opens⟩ := exists_opening isName known writable
    (Node.writtenNodes body ++
      (middleText ++ (Node.writtenNodes inverse ++ (closingText ++ rest))))
  obtain ⟨middle, middleCut, middleTrim, divides⟩ :=
    exists_middle tags.middle (Node.writtenNodes inverse ++ (closingText ++ rest))
  obtain ⟨closing, closingCut, closingTrim, closes⟩ := exists_closing tags.closing isName rest
  refine ⟨opening :: (pieces ++ middle :: (inversePieces ++ [closing])), ?_,
    .dividedBlock opens openingTrim spells divides middleTrim inverseSpells closes closingTrim⟩
  have laidOut : Node.written (.block tags body (some inverse)) ++ rest =
      Token.tagText tags.opening ['#'] (tags.helper.toList ++ ' ' :: tags.argument.written) ++
        (Node.writtenNodes body ++
          (middleText ++ (Node.writtenNodes inverse ++ (closingText ++ rest)))) := by
    simp only [Node.written, Node.writtenInverse, List.append_assoc, middleText, closingText]
  rw [laidOut, openingCut, bodyCut, middleCut, inverseCut, closingCut]
  simp only [List.cons_append, List.append_assoc, List.nil_append]

end FallsInto

private theorem Node.opensTag_written
    {node : Node} (tag : node.isText = false) (rest : List Char) :
    Token.opensTag (node.written ++ rest) = true := by
  cases node with
  | text => exact Bool.noConfusion tag
  | expression => rfl
  | comment => rfl
  | block => rfl
  | partialTag => rfl

-- What follows a text has to be known: nothing, or a tag, and then the text ends in no brace.
-- Any other node ends with its own delimiter.
mutual

private theorem fallsInto_written
    {table : BlockTable} : ∀ (node : Node) (rest : List Char), node.Writable table →
      (node.isText = true →
        rest = [] ∨ Token.opensTag rest = true ∧ node.endsInBrace = false) →
      FallsInto table node.written rest [node]
  | .text content span, rest, writable, seam => by
      have last : (Node.text content span).endsInBrace = false →
          content.toList.getLast? ≠ some '{' := by
        simp [Node.endsInBrace]
      refine .text span writable.1 writable.2 ?_
      rcases seam rfl with empty | ⟨opens, brace⟩
      · exact .inl empty
      · exact .inr ⟨opens, last brace⟩
  | .expression path escaped trim span, _, writable, _ =>
      .expression escaped trim span writable
  | .comment content trim span, _, writable, _ => by
      refine .comment trim span writable.1 ?_
      intro marked
      cases marked with
      | false => exact writable.2.1
      | true => exact writable.2.2
  | .partialTag name scope trim span, _, writable, _ =>
      .partialTag trim span writable.1 writable.2
  | .block tags body none, _, writable, _ => by
      obtain ⟨isName, known, argument, unmarked, nodes, separated, noBrace, _⟩ := writable
      refine .block isName known argument (unmarked rfl) fun rest opens => ?_
      exact fallsInto_writtenNodes body rest nodes separated
        (fun node member => noBrace node (List.dropLast_subset body member))
        (.inr ⟨opens, noBrace⟩)
  | .block tags body (some inverse), _, writable, _ => by
      obtain ⟨isName, known, argument, _, nodes, separated, noBrace, inverseNodes,
        inverseSeparated, inverseNoBrace⟩ := writable
      refine .dividedBlock isName known argument (fun rest opens => ?_) fun rest opens => ?_
      · exact fallsInto_writtenNodes body rest nodes separated
          (fun node member => noBrace node (List.dropLast_subset body member))
          (.inr ⟨opens, noBrace⟩)
      · exact fallsInto_writtenNodes inverse rest inverseNodes inverseSeparated
          (fun node member => inverseNoBrace node (List.dropLast_subset inverse member))
          (.inr ⟨opens, inverseNoBrace⟩)

private theorem fallsInto_writtenNodes
    {table : BlockTable} : ∀ (nodes : List Node) (rest : List Char),
      Node.WritableNodes table nodes → Node.Separated nodes →
      (∀ node ∈ nodes.dropLast, node.endsInBrace = false) →
      (rest = [] ∨ Token.opensTag rest = true ∧ ∀ node ∈ nodes, node.endsInBrace = false) →
      FallsInto table (Node.writtenNodes nodes) rest nodes
  | [], _, _, _, _, _ => .nil
  | [node], rest, writable, _, _, seam => by
      rw [Node.writtenNodes, Node.writtenNodes, List.append_nil]
      refine fallsInto_written node rest writable.1 fun _ => ?_
      rcases seam with empty | ⟨opens, noBrace⟩
      · exact .inl empty
      · exact .inr ⟨opens, noBrace node List.mem_cons_self⟩
  | node :: next :: others, rest, writable, separated, noBrace, seam => by
      obtain ⟨apart, laterSeparated⟩ := List.isChain_cons_cons.mp separated
      have later := fallsInto_writtenNodes (next :: others) rest writable.2 laterSeparated
        (fun other member => noBrace other (List.mem_cons_of_mem node member))
        (seam.imp_right fun ⟨opens, clear⟩ =>
          ⟨opens, fun other member => clear other (List.mem_cons_of_mem node member)⟩)
      have first := fallsInto_written node (Node.writtenNodes (next :: others) ++ rest)
        writable.1 fun text => by
          have tag : next.isText = false := Bool.eq_false_iff.mpr fun nextText =>
            apart ⟨text, nextText⟩
          rw [Node.writtenNodes, List.append_assoc]
          exact .inr ⟨Node.opensTag_written tag _, noBrace node List.mem_cons_self⟩
      exact first.append later

end

/-! ## Documents -/

namespace Document

/-- A document written out is read back, but for the places of its nodes. -/
theorem read_written
    {table : BlockTable} {document : Document} (writable : document.Writable table) :
    (read table document.written).map withoutSpans = .ok document.withoutSpans := by
  obtain ⟨pieces, cut, spells⟩ :=
    fallsInto_writtenNodes document.nodes [] writable.nodes writable.separated writable.noBrace
      (.inl rfl)
  rw [List.append_nil, Token.pieces_nil, List.append_nil] at cut
  obtain ⟨placed, derived, same⟩ := spells .start
  let result : Document := ⟨placed⟩
  have erased : result.withoutSpans = document.withoutSpans := congrArg Document.mk same
  have content : Token.content document.written = Token.lay .start pieces := by
    rw [Token.content_eq_lay, written, String.toList_ofList, cut]
  have shallow : result.depth ≤ maxBlockDepth := by
    have depth := congrArg Document.depth erased
    rw [withoutSpans, withoutSpans, depth_mapSpan, depth_mapSpan] at depth
    rw [depth]
    exact writable.shallow
  have accepted : read table document.written = .ok result := by
    refine read_of_section ?_ shallow
    rw [content]
    exact derived
  rw [accepted]
  exact congrArg Except.ok erased

/-- A document with every kind of node, names that look like keywords, and a text that ends in
a brace. -/
theorem read_written_nested :
    let document : Document :=
      ⟨[.comment "- --" ⟨true, false⟩ (.emptyAt .start),
        .block ⟨"if", ⟨2, .data "else", ["this", "x"]⟩, ⟨true, true⟩, ⟨false, true⟩, .unmarked,
            .emptyAt .start⟩
          [.expression ⟨0, .context, ["else"]⟩ true .unmarked (.emptyAt .start),
            .block ⟨"each", ⟨1, .context, []⟩, .unmarked, .unmarked, ⟨true, true⟩,
              .emptyAt .start⟩ [.text "\x7d\x7d" (.emptyAt .start)] none]
          (some [.partialTag "~p" (some ⟨0, .context, []⟩) ⟨false, true⟩ (.emptyAt .start)]),
        .expression ⟨0, .context, []⟩ false ⟨true, true⟩ (.emptyAt .start),
        .text "a\x7b" (.emptyAt .start)]⟩
    document.Writable .builtin ∧
      (read .builtin document.written).map withoutSpans = .ok document.withoutSpans := by
  intro document
  have solid {text : List Char} (all : (text.all fun c => !Text.isBlank c) = true) :
      ∀ c ∈ text, Text.isBlank c = false := by
    intro c member
    simpa using List.all_eq_true.mp all c member
  have word (text : String) (known : text = "else" ∨ text = "this" ∨ text = "x") :
      Path.IsWord text := by
    rcases known with rfl | rfl | rfl <;>
      exact ⟨by decide, List.all_eq_true.mp (by decide), solid (by decide)⟩
  have name (text : String) (known : text = "if" ∨ text = "each" ∨ text = "~p") :
      IsName text := by
    rcases known with rfl | rfl | rfl <;>
      exact ⟨by decide, solid (by decide), by decide, by decide⟩
  have far : Path.Writable ⟨2, .data "else", ["this", "x"]⟩ :=
    ⟨word _ (.inl rfl), by simp [word]⟩
  have near : Path.Writable ⟨0, .context, ["else"]⟩ := ⟨trivial, by simp [word]⟩
  have parent : Path.Writable ⟨1, .context, []⟩ := ⟨trivial, by simp⟩
  have current : Path.Writable ⟨0, .context, []⟩ := ⟨trivial, by simp⟩
  have remark : Text.Trimmed ['-', ' ', '-', '-'] ∧
      ¬ ['-', '-', '}', '}'] <:+: ['-', ' ', '-', '-'] ∧
        ¬ ['-', '-', '~', '}', '}'] <:+: ['-', ' ', '-', '-'] := ⟨rfl, by decide, by decide⟩
  have clear : ¬ ['{', '{'] <:+: ['}', '}'] ∧ ¬ ['{', '{'] <:+: ['a', '{'] := by decide
  have known : BlockTable.builtin.contains "if" = true ∧
      BlockTable.builtin.contains "each" = true := by decide
  have writable : document.Writable .builtin := by
    refine ⟨?_, ?_, ?_, by decide⟩
    · simp [document, Node.WritableNodes, Node.Writable, Node.WritableInverse, name, far, near,
        parent, current, Node.Separated, Node.isText, Node.endsInBrace, remark, clear, known]
    · simp [document, Node.Separated, Node.isText]
    · simp [document, Node.endsInBrace]
  exact ⟨writable, read_written writable⟩

end Document

end Stencil
