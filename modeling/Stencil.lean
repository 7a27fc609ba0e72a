import Stencil.Document.Walk
import Stencil.Model
import Stencil.Service.Describe
import Stencil.Service.Request
import Stencil.Value.Reader
import Stencil.Proofs.Document.Marks
import Stencil.Proofs.Grammar
import Stencil.Proofs.Token.Content
import Stencil.Proofs.Builder.Step
import Stencil.Proofs.Builder.Run
import Stencil.Proofs.Builder.Depth
import Stencil.Proofs.Reading.Strict
import Stencil.Proofs.Path.Writing
import Stencil.Proofs.Token.Cut
import Stencil.Proofs.Token.Writing
import Stencil.Proofs.Document.Spans
import Stencil.Proofs.Document.Writing
import Stencil.Proofs.Reading.RoundTrip
import Stencil.Proofs.Position
import Stencil.Proofs.Token.Place
import Stencil.Proofs.Builder.Trail
import Stencil.Proofs.Builder.Account
import Stencil.Proofs.Reading.Lenient
import Stencil.Proofs.Diagnostic.Sort
import Stencil.Proofs.Token.Append
import Stencil.Proofs.Builder.Moved
import Stencil.Proofs.Reading.Append
import Stencil.Proofs.Token.Scanner
import Stencil.Proofs.Token.Tiling
import Stencil.Proofs.Service.History
import Stencil.Proofs.Render.Passages
import Stencil.Proofs.Render.Agreement
import Stencil.Proofs.Render.Calls
import Stencil.Proofs.Render.Limit
import Stencil.Proofs.Render.Buffer
import Stencil.Proofs.Render.Inlining
import Stencil.Proofs.Service.Lasting
import Stencil.Proofs.Render.Machine
import Stencil.Proofs.Render.Termination
import Stencil.Proofs.Render.Outcomes
import Stencil.Proofs.Builder.HelperReports
import Stencil.Proofs.Render.Escaping
import Stencil.Proofs.Document.HelperNames
import Stencil.Proofs.Render.KnownHelpers
import Stencil.Proofs.Service.Registrations
import Stencil.Proofs.Service.Resolving
import Stencil.Proofs.Service.HelperAgreement
import Stencil.Proofs.Document.Trimming
import Stencil.Proofs.Document.Respelling
import Stencil.Proofs.Document.PartialNames
import Stencil.Proofs.Render.KnownPartials
import Stencil.Proofs.Render.Blanks
import Stencil.Proofs.Diagnostic.Wording
import Stencil.Proofs.Reading.Report
import Stencil.Proofs.Document.Settling
import Stencil.Proofs.Document.TrimRule
import Stencil.Proofs.Reading.Separation
import Stencil.Proofs.Builder.Reports
import Stencil.Proofs.Builder.Familiar
import Stencil.Proofs.Reading.Depth
import Stencil.Proofs.Pairing
import Stencil.Proofs.Reading.Matching
import Stencil.Proofs.Token.Delimited
import Stencil.Proofs.Path.Display
import Stencil.Proofs.Reading.Paths
import Stencil.Proofs.Document.Visits
import Stencil.Proofs.Document.Visitor
import Stencil.Proofs.Document.Addresses
import Stencil.Proofs.Reading.SourceOrder
import Stencil.Proofs.Context.Frames
import Stencil.Proofs.Render.Confinement
import Stencil.Proofs.Render.Rounds
import Stencil.Proofs.Token.Site
import Stencil.Proofs.Diagnostic.Excerpt
import Stencil.Proofs.Text.Bytes
import Stencil.Proofs.Text.Escape
import Stencil.Proofs.Render.Writing
