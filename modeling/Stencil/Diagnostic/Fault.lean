import Stencil.Path.Reader

/-!
What can be wrong with a template source. A fault is the cause of a diagnostic; its kind groups
causes, and its message is what a reader of the diagnostic sees.
-/

namespace Stencil

/-- The deepest nesting of blocks in a document. -/
def maxBlockDepth : Nat := 128

namespace Fault

inductive Kind where
  | unterminatedTag
  | unterminatedComment
  | emptyTag
  | invalidPath
  | unexpectedArgument
  | unknownBlock
  | missingArgument
  | mismatchedClose
  | unexpectedClose
  | unexpectedElse
  | missingPartialName
  | unclosedBlock
  | nestingTooDeep
deriving DecidableEq, Repr, Inhabited

def Kind.label : Kind → String
  | .unterminatedTag => "unterminated tag"
  | .unterminatedComment => "unterminated comment"
  | .emptyTag => "empty tag"
  | .invalidPath => "invalid path"
  | .unexpectedArgument => "unexpected argument"
  | .unknownBlock => "unknown block helper"
  | .missingArgument => "missing argument"
  | .mismatchedClose => "mismatched closing tag"
  | .unexpectedClose => "unexpected closing tag"
  | .unexpectedElse => "unexpected else"
  | .missingPartialName => "missing partial name"
  | .unclosedBlock => "unclosed block"
  | .nestingTooDeep => "nesting too deep"

end Fault

/-- Causes of a diagnostic. A reader of templates that a host supplies reports its own causes
with a kind and a message. -/
inductive Fault where
  | unterminatedTag
  | unterminatedComment
  | emptyExpression
  | emptyBlockOpen
  | emptyBlockClose
  | invalidPath (text : String) (flaw : Path.Flaw)
  | unexpectedArgument (argument tag : String)
  | unknownBlock (name : String)
  | invertedSection (tag : String)
  | missingArgument (name : String)
  | mismatchedClose (expected found : String)
  | unexpectedClose (name : String)
  | elseOutsideBlock
  | repeatedElse (name : String)
  | missingPartialName
  | unclosedBlock (name : String)
  | nestingTooDeep
  | reported (kind : Fault.Kind) (message : String)
deriving DecidableEq, Repr

namespace Fault

def kind : Fault → Kind
  | .unterminatedTag => .unterminatedTag
  | .unterminatedComment => .unterminatedComment
  | .emptyExpression | .emptyBlockOpen | .emptyBlockClose => .emptyTag
  | .invalidPath .. => .invalidPath
  | .unexpectedArgument .. => .unexpectedArgument
  | .unknownBlock _ | .invertedSection _ => .unknownBlock
  | .missingArgument _ => .missingArgument
  | .mismatchedClose .. => .mismatchedClose
  | .unexpectedClose _ => .unexpectedClose
  | .elseOutsideBlock | .repeatedElse _ => .unexpectedElse
  | .missingPartialName => .missingPartialName
  | .unclosedBlock _ => .unclosedBlock
  | .nestingTooDeep => .nestingTooDeep
  | .reported kind _ => kind

def tagText (content : String) : String :=
  "\x7b\x7b" ++ content ++ "\x7d\x7d"

def between (text : String) : String :=
  "'" ++ text ++ "'"

def message : Fault → String
  | .unterminatedTag => "tag opened with '\x7b\x7b' is never closed with '\x7d\x7d'"
  | .unterminatedComment => "comment is never closed"
  | .emptyExpression => "tag has no expression"
  | .emptyBlockOpen => "block tag has no helper name"
  | .emptyBlockClose => "closing tag has no helper name"
  | .invalidPath text flaw => "invalid path " ++ between text ++ ": " ++ flaw.message
  | .unexpectedArgument argument tag =>
      "unexpected argument " ++ between argument ++ " in " ++ between tag
  | .unknownBlock name => "unknown block helper " ++ between name
  | .invertedSection tag =>
      "inverted section " ++ between (tagText ("^" ++ tag)) ++ " is not supported"
  | .missingArgument name => "block helper " ++ between name ++ " requires an argument"
  | .mismatchedClose expected found =>
      "expected " ++ between (tagText ("/" ++ expected)) ++
        " but found " ++ between (tagText ("/" ++ found))
  | .unexpectedClose name =>
      between (tagText ("/" ++ name)) ++ " does not close any open block"
  | .elseOutsideBlock => between (tagText "else") ++ " outside of a block"
  | .repeatedElse name =>
      "block " ++ between name ++ " already has an " ++ between (tagText "else") ++ " section"
  | .missingPartialName => "partial tag has no partial name"
  | .unclosedBlock name =>
      "block " ++ between name ++ " is never closed with " ++ between (tagText ("/" ++ name))
  | .nestingTooDeep =>
      "blocks nest deeper than " ++ toString maxBlockDepth ++ " levels"
  | .reported _ message => message

end Fault

end Stencil
