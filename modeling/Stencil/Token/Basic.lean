import Stencil.Diagnostic.Basic
import Stencil.Text.Record

/-!
Tokens: the runs of text and the tags that a template source consists of.
-/

namespace Stencil

/-- Trim marks of a tag: whether the blanks before it and after it are dropped. -/
structure Trim where
  left : Bool
  right : Bool
deriving DecidableEq, Repr, Inhabited

def Trim.unmarked : Trim := ⟨false, false⟩

namespace Token

/-- What a token is; the last stands for the end of the source. -/
inductive Kind where
  | text
  | comment
  | escaped
  | raw
  | blockOpen
  | blockClose
  | elseTag
  | partialTag
  | unterminatedTag
  | unterminatedComment
  | endOfSource
deriving DecidableEq, Repr, Inhabited

def Kind.name : Kind → String
  | .text => "Text"
  | .comment => "Comment"
  | .escaped => "Escaped"
  | .raw => "Raw"
  | .blockOpen => "BlockOpen"
  | .blockClose => "BlockClose"
  | .elseTag => "Else"
  | .partialTag => "Partial"
  | .unterminatedTag | .unterminatedComment => "Error"
  | .endOfSource => "Eof"

def Kind.fault? : Kind → Option Fault
  | .unterminatedTag => some .unterminatedTag
  | .unterminatedComment => some .unterminatedComment
  | _ => none

end Token

/-- A run of text or a tag. The lexeme of a run of text is the run itself, that of a tag is
what stands between its delimiters without marks, sign and surrounding blanks. -/
structure Token where
  kind : Token.Kind
  lexeme : String
  trim : Trim
  span : Span
deriving DecidableEq, Repr, Inhabited

namespace Token

def words (token : Token) : List String :=
  (Text.words token.lexeme.toList).map String.ofList

def diagnostic? (token : Token) : Option Diagnostic :=
  token.kind.fault?.map fun fault => ⟨fault, token.span⟩

def describe (token : Token) : String :=
  token.kind.name ++ "(" ++ Text.Record.quoted token.lexeme ++ " @ " ++
    token.span.describe ++ ")"

end Token

end Stencil
