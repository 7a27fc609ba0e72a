import Stencil.Proofs.Document.Marks

/-!
The grammar of templates, over tokens. A section is a list of items, and an item is a leaf or a
block around one section or two. The grammar says nothing of how deep blocks nest.
-/

namespace Stencil.Grammar

/-- The leaf that a token is. -/
inductive Leaf (token : Token) : Node → Prop
  | text :
      token.kind = .text →
      Leaf token (.text token.lexeme token.span)
  | comment :
      token.kind = .comment →
      Leaf token (.comment token.lexeme token.trim token.span)
  | escaped {word : String} {path : Path} :
      token.kind = .escaped →
      token.words = [word] →
      Path.read word = .ok path →
      Leaf token (.expression path true token.trim token.span)
  | raw {word : String} {path : Path} :
      token.kind = .raw →
      token.words = [word] →
      Path.read word = .ok path →
      Leaf token (.expression path false token.trim token.span)
  | partialTag {name : String} :
      token.kind = .partialTag →
      token.words = [name] →
      Leaf token (.partialTag name none token.trim token.span)
  | scopedPartialTag {name word : String} {path : Path} :
      token.kind = .partialTag →
      token.words = [name, word] →
      Path.read word = .ok path →
      Leaf token (.partialTag name (some path) token.trim token.span)

/-- A token opens a block of the table. -/
inductive Opens (table : BlockTable) (token : Token) : String → Path → Prop
  | bare {helper : String} :
      token.kind = .blockOpen →
      token.words = [helper] →
      table.rule? helper = some .optional →
      Opens table token helper .current
  | argument {helper word : String} {path : Path} :
      token.kind = .blockOpen →
      token.words = [helper, word] →
      table.contains helper = true →
      Path.read word = .ok path →
      Opens table token helper path

structure Divides (token : Token) : Prop where
  kind : token.kind = .elseTag
  empty : token.lexeme = ""

structure Closes (token : Token) (helper : String) : Prop where
  kind : token.kind = .blockClose
  name : token.lexeme = helper

/-- The nodes that a section of tokens is read into. -/
inductive Section (table : BlockTable) : List Token → List Node → Prop
  | nil : Section table [] []
  | leaf {token : Token} {node : Node} {tokens : List Token} {nodes : List Node} :
      Leaf token node →
      Section table tokens nodes →
      Section table (token :: tokens) (node :: nodes)
  | block {opening closing : Token} {helper : String} {argument : Path}
      {bodyTokens tokens : List Token} {body nodes : List Node} :
      Opens table opening helper argument →
      Section table bodyTokens body →
      Closes closing helper →
      Section table tokens nodes →
      Section table
        (opening :: (bodyTokens ++ closing :: tokens))
        (.block ⟨helper, argument, opening.trim, .unmarked, closing.trim, opening.span⟩
          body none :: nodes)
  | dividedBlock {opening middle closing : Token} {helper : String} {argument : Path}
      {bodyTokens inverseTokens tokens : List Token} {body inverse nodes : List Node} :
      Opens table opening helper argument →
      Section table bodyTokens body →
      Divides middle →
      Section table inverseTokens inverse →
      Closes closing helper →
      Section table tokens nodes →
      Section table
        (opening :: (bodyTokens ++ middle :: (inverseTokens ++ closing :: tokens)))
        (.block ⟨helper, argument, opening.trim, middle.trim, closing.trim, opening.span⟩
          body (some inverse) :: nodes)

theorem Section.append
    {table : BlockTable} {first second : List Token} {firstNodes secondNodes : List Node}
    (start : Section table first firstNodes) (rest : Section table second secondNodes) :
    Section table (first ++ second) (firstNodes ++ secondNodes) := by
  induction start with
  | nil => exact rest
  | leaf leaf _ inductionHypothesis => exact .leaf leaf inductionHypothesis
  | block opens body closes _ _ inductionHypothesis =>
      simp only [List.cons_append, List.append_assoc]
      exact .block opens body closes inductionHypothesis
  | dividedBlock opens body divides inverse closes _ _ _ inductionHypothesis =>
      simp only [List.cons_append, List.append_assoc]
      exact .dividedBlock opens body divides inverse closes inductionHypothesis

theorem Section.single
    {table : BlockTable} {token : Token} {node : Node} (leaf : Leaf token node) :
    Section table [token] [node] :=
  .leaf leaf .nil

theorem Leaf.leaf?_eq
    {token : Token} {node : Node} (leaf : Leaf token node) :
    token.leaf? = some node := by
  cases leaf with
  | text kind => simp [Token.leaf?, kind]
  | comment kind => simp [Token.leaf?, kind]
  | escaped kind words path => simp [Token.leaf?, kind, words, path, Except.toOption]
  | raw kind words path => simp [Token.leaf?, kind, words, path, Except.toOption]
  | partialTag kind words => simp [Token.leaf?, kind, words]
  | scopedPartialTag kind words path =>
      simp [Token.leaf?, kind, words, path, Except.toOption]

theorem Leaf.depth_eq
    {token : Token} {node : Node} (leaf : Leaf token node) :
    node.depth = 0 := by
  cases leaf <;> rfl

theorem Opens.mark?_eq
    {table : BlockTable} {token : Token} {helper : String} {argument : Path}
    (opens : Opens table token helper argument) :
    token.mark? = some (.opening helper argument token.trim token.span) := by
  cases opens with
  | bare kind words _ => simp [Token.mark?, kind, words, Token.argument]
  | argument kind words _ path =>
      simp [Token.mark?, kind, words, Token.argument, path, Except.toOption]

theorem Divides.mark?_eq
    {token : Token} (divides : Divides token) :
    token.mark? = some (.middle token.trim) := by
  simp [Token.mark?, divides.kind, divides.empty]

theorem Closes.mark?_eq
    {token : Token} {helper : String} (closes : Closes token helper) :
    token.mark? = some (.closing helper token.trim) := by
  simp [Token.mark?, closes.kind, closes.name]

/-- Laid flat, the nodes of a section are the marks of its tokens. -/
theorem Section.marks_eq
    {table : BlockTable} {tokens : List Token} {nodes : List Node}
    (derived : Section table tokens nodes) :
    tokens.map Token.mark? = (Node.marksNodes nodes).map some := by
  induction derived with
  | nil => rfl
  | leaf leaf _ inductionHypothesis =>
      rw [List.map_cons, Token.mark?_of_leaf? leaf.leaf?_eq, inductionHypothesis,
        Node.marksNodes, Token.marks_of_leaf? leaf.leaf?_eq]
      rfl
  | block opens _ closes _ bodyMarks restMarks =>
      simp only [List.map_cons, List.map_append, opens.mark?_eq, closes.mark?_eq, bodyMarks,
        restMarks, Node.marksNodes, Node.marks, Node.marksInverse, List.append_nil,
        List.cons_append, List.append_assoc, List.nil_append]
  | dividedBlock opens _ divides _ closes _ bodyMarks inverseMarks restMarks =>
      simp only [List.map_cons, List.map_append, opens.mark?_eq, divides.mark?_eq,
        closes.mark?_eq, bodyMarks, inverseMarks, restMarks, Node.marksNodes, Node.marks,
        Node.marksInverse, List.cons_append, List.append_assoc, List.nil_append]

end Stencil.Grammar
