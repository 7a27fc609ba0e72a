import Stencil.BlockTable
import Stencil.Document.Basic
import Stencil.Path.Reader
import Stencil.Token.Scan

/-!
Building a document from tokens. The builder keeps the blocks that are open, and goes on after
every fault: the tag at fault is left out of the document, or its block is kept open only to be
matched with its closing tag, so that one pass reports all there is to report.
-/

namespace Stencil

/-- An open block. Its inverse section is there once the middle tag has been seen; a block that
is not kept leaves the document when it closes. -/
structure OpenBlock where
  kept : Bool
  tags : BlockTags
  body : Array Node
  inverse : Option (Array Node)
deriving Repr

namespace OpenBlock

def name (block : OpenBlock) : String :=
  block.tags.helper

def push (block : OpenBlock) (node : Node) : OpenBlock :=
  match block.inverse with
  | some nodes => { block with inverse := some (nodes.push node) }
  | none => { block with body := block.body.push node }

def invert (block : OpenBlock) (trim : Trim) : OpenBlock :=
  { block with inverse := some #[], tags := { block.tags with middle := trim } }

/-- The node of the block, closed by a tag with the given marks. -/
def close (block : OpenBlock) (trim : Trim) : Node :=
  .block { block.tags with closing := trim } block.body.toList
    (block.inverse.map Array.toList)

def unclosed (block : OpenBlock) : Diagnostic :=
  ⟨.unclosedBlock block.name, block.tags.span⟩

end OpenBlock

/-- A document under construction: the nodes outside all blocks, the open blocks from the
innermost outwards, and the diagnostics so far. -/
structure Builder where
  nodes : Array Node
  blocks : List OpenBlock
  diagnostics : Array Diagnostic
deriving Repr

namespace Builder

def empty : Builder := ⟨#[], [], #[]⟩

/-- Adds a node to the innermost open section. -/
def push (builder : Builder) (node : Node) : Builder :=
  match builder.blocks with
  | block :: outer => { builder with blocks := block.push node :: outer }
  | [] => { builder with nodes := builder.nodes.push node }

def report (builder : Builder) (span : Span) (faults : List Fault) : Builder :=
  { builder with
    diagnostics := builder.diagnostics ++ (faults.map fun fault => Diagnostic.mk fault span) }

def readPath (text : String) : Except Fault Path :=
  (Path.read text).mapError (Fault.invalidPath text)

/-- The fault of having more arguments than a tag takes: it names the first one too many. -/
def surplus (token : Token) (most : Nat) (arguments : List String) : List Fault :=
  match arguments[most]? with
  | some argument => [.unexpectedArgument argument token.lexeme]
  | none => []

def expression (builder : Builder) (token : Token) (escaped : Bool) : Builder :=
  match token.words with
  | [] => builder.report token.span [.emptyExpression]
  | [word] =>
      match readPath word with
      | .ok path => builder.push (.expression path escaped token.trim token.span)
      | .error fault => builder.report token.span [fault]
  | _ :: arguments => builder.report token.span (surplus token 0 arguments)

/-- The argument of a block, and the fault that it shows. A missing or faulty argument leaves
the current value. -/
def blockArgument (rule : Option ArgumentRule) (name : String) :
    List String → Path × List Fault
  | argument :: _ =>
      match readPath argument with
      | .ok path => (path, [])
      | .error fault => (.current, [fault])
  | [] => (.current, if rule = some .required then [.missingArgument name] else [])

def openBlock (table : BlockTable) (builder : Builder) (token : Token) : Builder :=
  match token.words with
  | [] => builder.report token.span [.emptyBlockOpen]
  | name :: arguments =>
      let rule := table.rule? name
      let depth := builder.blocks.length
      let (argument, argumentFaults) := blockArgument rule name arguments
      let faults :=
        surplus token 1 arguments ++
          (if rule.isNone then [.unknownBlock name] else []) ++
          (if depth = maxBlockDepth then [.nestingTooDeep] else []) ++ argumentFaults
      let block : OpenBlock :=
        { kept := rule.isSome && depth < maxBlockDepth
          tags := ⟨name, argument, token.trim, .unmarked, .unmarked, token.span⟩
          body := #[]
          inverse := none }
      let builder := builder.report token.span faults
      { builder with blocks := block :: builder.blocks }

def invert (builder : Builder) (token : Token) : Builder :=
  if token.lexeme.isEmpty then
    match builder.blocks with
    | [] => builder.report token.span [.elseOutsideBlock]
    | block :: outer =>
        if block.inverse.isSome then
          builder.report token.span [.repeatedElse block.name]
        else
          { builder with blocks := block.invert token.trim :: outer }
  else
    builder.report token.span [.invertedSection token.lexeme]

/-- Closes the innermost block of a name; the blocks within it were never closed. -/
def closeBlock (builder : Builder) (token : Token) : Builder :=
  if token.lexeme.isEmpty then
    builder.report token.span [.emptyBlockClose]
  else
    match builder.blocks.dropWhile fun block => block.name != token.lexeme with
    | [] =>
        match builder.blocks with
        | [] => builder.report token.span [.unexpectedClose token.lexeme]
        | block :: _ => builder.report token.span [.mismatchedClose block.name token.lexeme]
    | block :: outer =>
        let inner := builder.blocks.takeWhile fun block => block.name != token.lexeme
        let builder : Builder :=
          { builder with
            blocks := outer
            diagnostics := builder.diagnostics ++ inner.map OpenBlock.unclosed }
        if block.kept then builder.push (block.close token.trim) else builder

def callPartial (builder : Builder) (token : Token) : Builder :=
  match token.words with
  | [] => builder.report token.span [.missingPartialName]
  | name :: arguments =>
      let builder := builder.report token.span (surplus token 1 arguments)
      match arguments with
      | [] => builder.push (.partialTag name none token.trim token.span)
      | argument :: _ =>
          match readPath argument with
          | .ok path => builder.push (.partialTag name (some path) token.trim token.span)
          | .error fault => builder.report token.span [fault]

def step (table : BlockTable) (builder : Builder) (token : Token) : Builder :=
  match token.kind with
  | .text => builder.push (.text token.lexeme token.span)
  | .comment => builder.push (.comment token.lexeme token.trim token.span)
  | .escaped => builder.expression token true
  | .raw => builder.expression token false
  | .blockOpen => openBlock table builder token
  | .elseTag => builder.invert token
  | .blockClose => builder.closeBlock token
  | .partialTag => builder.callPartial token
  | .unterminatedTag | .unterminatedComment | .endOfSource => builder

def run (table : BlockTable) (tokens : List Token) : Builder :=
  tokens.foldl (step table) empty

def document (builder : Builder) : Document :=
  ⟨builder.nodes.toList⟩

/-- The diagnostics of a finished builder: those of the tags, then of the blocks still open. -/
def finish (builder : Builder) : List Diagnostic :=
  builder.diagnostics.toList ++ builder.blocks.map OpenBlock.unclosed

end Builder

namespace Document

/-- Reads a source as far as it makes sense: what can be built of it, and all the diagnostics in
reading order. -/
def readLenient (table : BlockTable) (source : String) : Document × List Diagnostic :=
  let tokens := Token.scan source
  let builder := Builder.run table tokens
  (builder.document,
    Diagnostic.sortByPlace (builder.finish ++ tokens.filterMap Token.diagnostic?))

/-- Reads a source that must be free of faults. -/
def read (table : BlockTable) (source : String) : Except (List Diagnostic) Document :=
  match readLenient table source with
  | (document, []) => .ok document
  | (_, diagnostics) => .error diagnostics

end Document

end Stencil
