import Stencil.Diagnostic.Fault
import Stencil.Position
import Stencil.Text.Lines

/-!
Diagnostics and their reports. A diagnostic is a fault at a place; a report gives one line per
diagnostic, and an excerpt shows the source line with the place underlined.
-/

namespace Stencil

/-- A fault and the place of the tag or block that shows it. -/
structure Diagnostic where
  fault : Fault
  span : Span
deriving DecidableEq, Repr

namespace Diagnostic

def display (diagnostic : Diagnostic) : String :=
  diagnostic.span.display ++ ": " ++ diagnostic.fault.message

/-- The lines of an excerpt below its headline: an empty gutter, the source line after its
number, and a marker under the place. -/
def excerptLines (span : Span) (line : String) : List String :=
  let number := toString span.start.line.toNat
  let blank := String.ofList (List.replicate number.length ' ')
  let indent := String.ofList (List.replicate (span.start.col.toNat - 1) ' ')
  [" " ++ blank ++ " |",
    " " ++ number ++ " | " ++ line,
    " " ++ blank ++ " | " ++ indent ++ span.underline]

def sourceLine? (span : Span) (source : String) : Option String :=
  if span.start.line = 0 then none
  else (Text.lines source.toList)[span.start.line.toNat - 1]?.map String.ofList

/-- The diagnostic with an excerpt of the source where the source has its line. -/
def displayWithSource (diagnostic : Diagnostic) (source : String) : String :=
  let below :=
    match sourceLine? diagnostic.span source with
    | some line => excerptLines diagnostic.span line
    | none => []
  String.join ((diagnostic.display :: below).map (· ++ "\n"))

def le (first second : Diagnostic) : Bool :=
  first.span.start.le second.span.start

/-- Diagnostics in reading order; those at one place keep their order. -/
def sortByPlace (diagnostics : List Diagnostic) : List Diagnostic :=
  diagnostics.mergeSort le

def report (diagnostics : List Diagnostic) : String :=
  "\n".intercalate (diagnostics.map display)

theorem le_trans (first second third : Diagnostic)
    (lower : first.le second = true) (upper : second.le third = true) :
    first.le third = true :=
  Position.le_trans lower upper

theorem le_total (first second : Diagnostic) :
    (first.le second || second.le first) = true :=
  Position.le_total first.span.start second.span.start

theorem perm_sortByPlace (diagnostics : List Diagnostic) :
    (sortByPlace diagnostics).Perm diagnostics :=
  List.mergeSort_perm diagnostics le

theorem pairwise_sortByPlace (diagnostics : List Diagnostic) :
    (sortByPlace diagnostics).Pairwise fun first second => first.le second = true :=
  List.pairwise_mergeSort le_trans le_total diagnostics

end Diagnostic

end Stencil
