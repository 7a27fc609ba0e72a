import Stencil.Proofs.Document.PartialNames
import Stencil.Proofs.Render.Calls
import Stencil.Proofs.Render.KnownHelpers

/-!
The partials that a rendering can lack. The names that documents reference bound them: a
rendering comes to no other name, however its data branches and its partials call each other.
-/

namespace Stencil

/-- Whether an error that names a lacking partial names one of a kind. -/
def TemplateError.LacksOnly (lacking : String → Prop) (error : TemplateError) : Prop :=
  ∀ name, error = .unknownPartial name → lacking name

/-- A document lacks only what its calls lack, and calls only the names that it references. -/
theorem Style.lacksOnly_renderNodes
    {style : Style} (standard : style.helpers = .builtin) {host : Host} {document : Document}
    {lacking : String → Prop}
    (called : ∀ name ∈ document.referencedPartials, ∀ context,
      Yields (fun _ => True) (TemplateError.LacksOnly lacking) (host.callPartial name context))
    (context : Context) :
    Yields (fun _ => True) (TemplateError.LacksOnly lacking)
      (style.renderNodes host document.nodes context "") := by
  apply yields_renderNodes composable_true _ context trivial
  constructor
  case text => exact fun _ _ _ => trivial
  case value => exact fun _ _ _ _ _ _ _ _ => trivial
  case unknown => exact fun _ _ _ _ _ _ _ => nofun
  case helper =>
    intro name _ _ _ _ helper found
    rw [standard] at found
    exact keeps_of_builtin found
  case partialTag =>
    intro name scope trim span member
    exact called name (Document.mem_referencedPartials member)
  case exceeded => exact fun _ _ _ => nofun

namespace Partials

/-- Whether names are closed under references: those of a document are among them, and those of
every document that one of them is bound to. -/
structure Closed (table : Registry PartialBody) (document : Document) (names : Set String) :
    Prop where
  root : ∀ name ∈ document.referencedPartials, name ∈ names
  bound : ∀ name ∈ names, ∀ page, table.get? name = some (.document page) →
    ∀ inner ∈ page.referencedPartials, inner ∈ names

private theorem lacksOnly_call
    {style : Style} (standard : style.helpers = .builtin) (metadata : Metadata)
    {table : Registry PartialBody} (documents : Documents table) {document : Document}
    {names : Set String} (closed : Closed table document names) (nesting : Nat) {name : String}
    (listed : name ∈ names) (context : Context) :
    Yields (fun _ => True)
      (TemplateError.LacksOnly fun name => name ∈ names ∧ table.get? name = none)
      (call style.render metadata table nesting name context) := by
  refine yields_call_of_known ?_ ?_ ?_ nesting listed context
  · rintro _ listed free name ⟨⟩
    exact ⟨listed, free⟩
  · exact fun _ _ _ => nofun
  · intro name body listed found host _ called context
    obtain ⟨page, rfl⟩ := documents name body found
    apply Style.lacksOnly_renderNodes standard
    exact fun inner member => called inner (closed.bound name listed page found inner member)

/-- The partial that a rendering lacks is one of the referenced names and not bound. So none is
lacking where all of these are bound. Trimming references the same names. -/
theorem render_lacks_referenced
    (style : Style) (standard : style.helpers = .builtin) (metadata : Metadata)
    {table : Registry PartialBody} (documents : Documents table) {document : Document}
    {names : Set String} (closed : Closed table document names) (context : Context) :
    (∀ name, render style metadata table document context = .error (.unknownPartial name) →
        name ∈ names ∧ table.get? name = none) ∧
      ((∀ name ∈ names, table.contains name = true) → ∀ name,
        render style metadata table document context ≠ .error (.unknownPartial name)) ∧
      document.collapseWhitespace.referencedPartials = document.referencedPartials := by
  have lacks : ∀ name, render style metadata table document context =
      .error (.unknownPartial name) → name ∈ names ∧ table.get? name = none := by
    intro name lacking
    have yields : Yields (fun _ => True)
        (TemplateError.LacksOnly fun name => name ∈ names ∧ table.get? name = none)
        (render style metadata table document context) := by
      apply Style.lacksOnly_renderNodes standard
      intro name member context
      exact lacksOnly_call standard metadata documents closed _ (closed.root name member) context
    rw [lacking] at yields
    exact yields name rfl
  refine ⟨lacks, ?_, document.referencedPartials_collapseWhitespace⟩
  intro bound name lacking
  obtain ⟨listed, free⟩ := lacks name lacking
  have taken := bound name listed
  rw [Registry.contains, free] at taken
  exact nomatch taken

/-- A list whose rows call for a partial in an inverse section, which nobody has registered. -/
theorem render_lacks_referenced_tail :
    let tags (helper : String) : BlockTags :=
      ⟨helper, .current, default, default, default, default⟩
    let tag (name : String) : Node := .partialTag name none default default
    let list : Document := ⟨[.block (tags "each") [tag "row"] (some [tag "none"])]⟩
    let row : Document := ⟨[.block (tags "if") [.text "on" default] (some [tag "tail"]), tag "row"]⟩
    let table := (Registry.empty.insertIfNew "row" (PartialBody.document row)).2.2
    let names := ["row", "none", "tail"]
    let model : Value := .array [.bool false]
    Closed table list {name | name ∈ names} ∧
      render .standard .standard table list (.ofModel model) = .error (.unknownPartial "tail") ∧
      "tail" ∈ names ∧ table.get? "tail" = none := by
  intro tags tag list row table names model
  have documents : Documents table := documents_empty.insertIfNew "row" row
  have closed : Closed table list {name | name ∈ names} := by
    constructor
    · have inside : list.referencedPartials ⊆ names := by decide
      exact fun name member => inside member
    · intro name _ page found inner member
      rw [Registry.get?_insertIfNew, Registry.get?_empty] at found
      split at found
      · rw [← PartialBody.document.inj (Option.some.inj found)] at member
        have inside : row.referencedPartials ⊆ names := by decide
        exact inside member
      · exact nomatch found
  have rendered : render .standard .standard table list (.ofModel model) =
      .error (.unknownPartial "tail") := by
    decide +kernel
  have lacks := render_lacks_referenced .standard rfl .standard documents closed (.ofModel model)
  exact ⟨closed, rendered, lacks.1 "tail" rendered⟩

end Partials

end Stencil
