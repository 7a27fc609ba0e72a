import Mathlib.Data.List.Chain
import Stencil.Proofs.Document.Spans
import Stencil.Proofs.Path.Writing
import Stencil.Proofs.Token.Writing

/-!
Documents written out as template sources, and the documents for which that makes sense: those
whose names, texts and comments do not run into the delimiters around them.
-/

namespace Stencil

/-- The name of a helper or a partial as a tag can hold it. -/
structure IsName (name : String) : Prop where
  nonempty : name ≠ ""
  solid : ∀ c ∈ name.toList, Text.isBlank c = false
  braceless : Token.Braceless name.toList

namespace Node

def isText : Node → Bool
  | .text .. => true
  | _ => false

/-- Whether a node is a run of text with an opening brace at its end. -/
def endsInBrace : Node → Bool
  | .text content _ => content.toList.getLast? == some '{'
  | _ => false

/-- No run of text stands next to another. -/
def Separated (nodes : List Node) : Prop :=
  nodes.IsChain fun first second => ¬ (first.isText = true ∧ second.isText = true)

mutual

/-- A node that can be written with the blocks of a table. -/
def Writable (table : BlockTable) : Node → Prop
  | .text content _ => content ≠ "" ∧ ¬ ['{', '{'] <:+: content.toList
  | .expression path _ _ _ => path.Writable
  | .comment content _ _ =>
      Text.Trimmed content.toList ∧ ¬ ['-', '-', '}', '}'] <:+: content.toList ∧
        ¬ ['-', '-', '~', '}', '}'] <:+: content.toList
  | .block tags body inverse =>
      IsName tags.helper ∧ table.contains tags.helper = true ∧ tags.argument.Writable ∧
        (inverse = none → tags.middle = .unmarked) ∧
        WritableNodes table body ∧ Separated body ∧ (∀ node ∈ body, node.endsInBrace = false) ∧
        WritableInverse table inverse
  | .partialTag name scope _ _ => IsName name ∧ ∀ path, scope = some path → path.Writable
termination_by structural node => node

def WritableNodes (table : BlockTable) : List Node → Prop
  | [] => True
  | node :: rest => Writable table node ∧ WritableNodes table rest
termination_by structural nodes => nodes

def WritableInverse (table : BlockTable) : Option (List Node) → Prop
  | none => True
  | some nodes =>
      WritableNodes table nodes ∧ Separated nodes ∧ ∀ node ∈ nodes, node.endsInBrace = false
termination_by structural inverse => inverse

end

def writtenScope : Option Path → List Char
  | none => []
  | some path => ' ' :: path.written

mutual

/-- A node written out. -/
def written : Node → List Char
  | .text content _ => content.toList
  | .expression path escaped trim _ =>
      Token.tagText trim (if escaped then [] else ['&']) path.written
  | .comment content trim _ => Token.remarkText trim content.toList
  | .block tags body inverse =>
      Token.tagText tags.opening ['#'] (tags.helper.toList ++ ' ' :: tags.argument.written) ++
        (writtenNodes body ++ writtenInverse tags.middle inverse ++
          Token.tagText tags.closing ['/'] tags.helper.toList)
  | .partialTag name scope trim _ =>
      Token.tagText trim ['>'] (name.toList ++ writtenScope scope)
termination_by structural node => node

def writtenNodes : List Node → List Char
  | [] => []
  | node :: rest => written node ++ writtenNodes rest
termination_by structural nodes => nodes

def writtenInverse (middle : Trim) : Option (List Node) → List Char
  | none => []
  | some nodes => Token.tagText middle [] ['e', 'l', 's', 'e'] ++ writtenNodes nodes
termination_by structural inverse => inverse

end

end Node

namespace Document

/-- A document that can be written with the blocks of a table. An opening brace may end its text
only where nothing follows. -/
structure Writable (table : BlockTable) (document : Document) : Prop where
  nodes : Node.WritableNodes table document.nodes
  separated : Node.Separated document.nodes
  noBrace : ∀ node ∈ document.nodes.dropLast, node.endsInBrace = false
  shallow : document.depth ≤ maxBlockDepth

def written (document : Document) : String :=
  String.ofList (Node.writtenNodes document.nodes)

end Document

end Stencil
