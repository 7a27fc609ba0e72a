import Mathlib.Control.Monad.Basic
import Stencil.Proofs.Render.Calls
import Stencil.Proofs.Render.Outcomes
import Stencil.Proofs.Text.Escape

/-!
What templates that escape all values can render. Markup in such a text stems from the text of
the templates: whatever the values are, they bring in none of the characters that make tags and
attributes.
-/

namespace Stencil

/-- Whether a text is put together from contents of some kind and from harmless texts. -/
def Composed (contents : String → Prop) (text : String) : Prop :=
  ∃ pieces, text = String.join pieces ∧
    ∀ piece ∈ pieces, contents piece ∨ Text.Harmless piece

section Composed

variable {contents : String → Prop}

private theorem Composed.of_piece
    {piece : String} (allowed : contents piece ∨ Text.Harmless piece) :
    Composed contents piece := by
  refine ⟨[piece], ?_, ?_⟩
  · rw [String.join_cons, String.join_nil, String.append_empty]
  · intro other member
    rw [List.mem_singleton] at member
    rw [member]
    exact allowed

private theorem composable_composed : Composable (Composed contents) where
  empty := ⟨[], String.join_nil.symm, nofun⟩
  append := by
    rintro _ _ ⟨before, rfl, beforeAllowed⟩ ⟨after, rfl, afterAllowed⟩
    refine ⟨before ++ after, String.join_append.symm, ?_⟩
    intro piece member
    rcases List.mem_append.mp member with here | there
    · exact beforeAllowed piece here
    · exact afterAllowed piece there

/-- Markup in a composed text stems from the contents. -/
theorem Composed.not_mem
    {text : String} (composed : Composed contents text) {c : Char} (mark : c ∈ Text.markup)
    (absent : ∀ content, contents content → c ∉ content.toList) : c ∉ text.toList := by
  obtain ⟨pieces, rfl, allowed⟩ := composed
  rw [String.toList_join, List.mem_flatMap]
  rintro ⟨piece, member, inPiece⟩
  rcases allowed piece member with content | harmless
  · exact absent piece content inPiece
  · exact harmless c mark inPiece

end Composed

namespace Document

def HasText (document : Document) (content : String) : Prop :=
  ∃ span, .leaf (.text content span) ∈ document.marks

def Escapes (document : Document) : Prop :=
  ∀ path escaped trim span, .leaf (.expression path escaped trim span) ∈ document.marks →
    escaped = true

end Document

namespace Style

variable {style : Style} {contents : String → Prop}

private theorem composed_appendValue
    (escapes : style.options.escapeHtml = true) (metadata : Metadata) (path : Path)
    (context : Context) {out : String} (composed : Composed contents out) :
    Composed contents (style.appendValue metadata path true context out) := by
  unfold appendValue
  cases context.lookup metadata path with
  | none => exact composed
  | some value =>
      dsimp only
      rw [Bool.true_and, if_pos escapes, Text.escapeInto_eq_append]
      apply composable_composed.append out _ composed
      exact .of_piece (.inr (Text.harmless_escape _))

/-- A document with escaped values gives a composed text where its partials do. -/
theorem composed_renderNodes
    (standard : style.helpers = .builtin) (escapes : style.options.escapeHtml = true)
    {host : Host} {document : Document} (escaped : document.Escapes)
    (contained : ∀ content, document.HasText content → contents content)
    (called : ∀ name context, Yields (Composed contents) (fun _ => True)
      (host.callPartial name context))
    (context : Context) :
    Yields (Composed contents) (fun _ => True)
      (style.renderNodes host document.nodes context "") := by
  refine yields_renderNodes composable_composed ?_ context composable_composed.empty
  constructor
  case text => exact fun content span member => .of_piece (.inl (contained content ⟨span, member⟩))
  case value =>
    intro path flag trim span member context out composed
    rw [escaped path flag trim span member]
    exact composed_appendValue escapes host.metadata path context composed
  case unknown => exact fun _ _ _ _ _ _ => trivial
  case helper =>
    intro name _ _ _ _ helper found
    rw [standard] at found
    exact keeps_of_builtin found
  case partialTag => exact fun name _ _ _ _ => called name
  case exceeded => exact fun _ _ => trivial

end Style

namespace Partials

/-- Whether a rendering of a document can come to another one: that document, or a partial. -/
def Page (table : Registry PartialBody) (document page : Document) : Prop :=
  page = document ∨ ∃ name, table.get? name = some (.document page)

def PageText (table : Registry PartialBody) (document : Document) (content : String) : Prop :=
  ∃ page, Page table document page ∧ page.HasText content

/-- What is rendered with all values escaped consists of texts of the templates and of texts
without markup. So markup that is not in the templates does not come out. -/
theorem render_composed
    (style : Style) (standard : style.helpers = .builtin)
    (escapes : style.options.escapeHtml = true) (metadata : Metadata)
    {table : Registry PartialBody} (documents : Documents table) (document : Document)
    (escaped : ∀ page, Page table document page → page.Escapes) (context : Context)
    {text : String} (rendered : render style metadata table document context = .ok text) :
    Composed (PageText table document) text ∧
      ∀ c ∈ Text.markup,
        (∀ content, PageText table document content → c ∉ content.toList) →
          c ∉ text.toList := by
  have called : ∀ nesting name context,
      Yields (Composed (PageText table document)) (fun _ => True)
        (call style.render metadata table nesting name context) := by
    apply yields_call
    · exact fun _ _ => trivial
    · exact fun _ _ => trivial
    · intro name body found host _ called context
      obtain ⟨page, rfl⟩ := documents name body found
      have known : Page table document page := .inr ⟨name, found⟩
      apply Style.composed_renderNodes standard escapes (escaped page known) _ called
      exact fun content inPage => ⟨page, known, inPage⟩
  have whole : Yields (Composed (PageText table document)) (fun _ => True)
      (render style metadata table document context) := by
    apply Style.composed_renderNodes standard escapes (escaped document (.inl rfl)) _ (called _)
    exact fun content inDocument => ⟨document, .inl rfl, inDocument⟩
  rw [rendered] at whole
  have composed : Composed (PageText table document) text := whole
  exact ⟨composed, fun c mark absent => composed.not_mem mark absent⟩

/-- A list of members whose keys and values are full of markup. -/
theorem render_composed_members :
    let rows : BlockTags := ⟨"each", .current, default, default, default, default⟩
    let list : Document :=
      ⟨[.text "<ul>" default,
        .block rows [.partialTag "row" none default default] none,
        .text "</ul>" default]⟩
    let row : Document :=
      ⟨[.text "<li>" default, .expression ⟨0, .data "key", []⟩ true default default,
        .text ": " default, .expression .current true default default, .text "</li>" default]⟩
    let table := (Registry.empty.insertIfNew "row" (PartialBody.document row)).2.2
    let model : Value := .object [("a=b", .string "<br>"), ("c", .array [.string "\"\""])]
    let text := "<ul><li>a&#x3D;b: &lt;br&gt;</li><li>c: &quot;&quot;</li></ul>"
    (∀ page, Page table list page → page.Escapes) ∧
      render .standard .standard table list (.ofModel model) = .ok text ∧
      Composed (PageText table list) text ∧ '=' ∉ text.toList ∧ '"' ∉ text.toList := by
  intro rows list row table model text
  have documents : Documents table := documents_empty.insertIfNew "row" row
  have pages : ∀ page, Page table list page → page = list ∨ page = row := by
    rintro page (here | ⟨name, found⟩)
    · exact .inl here
    · rw [Registry.get?_insertIfNew, Registry.get?_empty] at found
      split at found
      · exact .inr (PartialBody.document.inj (Option.some.inj found)).symm
      · exact nomatch found
  have escaped : ∀ page, Page table list page → page.Escapes := by
    intro page known path flag trim span member
    rcases pages page known with rfl | rfl <;>
      simp [list, row, Document.marks, Node.marksNodes, Node.marks, Node.marksInverse] at member
    · rcases member with here | here <;> exact here.2.1
  have rendered : render .standard .standard table list (.ofModel model) = .ok text := by
    decide +kernel
  have contents : ∀ content, PageText table list content →
      content ∈ ["<ul>", "</ul>", "<li>", ": ", "</li>"] := by
    rintro content ⟨page, known, span, member⟩
    rcases pages page known with rfl | rfl <;>
      simp [list, row, Document.marks, Node.marksNodes, Node.marks, Node.marksInverse] at member
    · rcases member with here | here <;> simp [here.1]
    · rcases member with here | here | here <;> simp [here.1]
  have composed := render_composed .standard rfl rfl .standard documents list escaped _ rendered
  have absent : ∀ c ∈ ['=', '"'], ∀ content, PageText table list content →
      c ∉ content.toList := by
    intro c mark content known
    have all : ∀ c ∈ ['=', '"'], ∀ content ∈ ["<ul>", "</ul>", "<li>", ": ", "</li>"],
        c ∉ content.toList := by
      simp
    exact all c mark content (contents content known)
  refine ⟨escaped, rendered, composed.1, ?_, ?_⟩
  · exact composed.2 '=' (by decide) (absent '=' (by decide))
  · exact composed.2 '"' (by decide) (absent '"' (by decide))

end Partials

end Stencil
