import Stencil.Proofs.Document.Respelling
import Stencil.Proofs.Render.Buffer

/-!
Rendering a trimmed document. It takes the same turns as rendering the document before trimming:
the same sections in the same contexts, the same partials, and the same first error. Only the
blanks of the text between them differ.
-/

namespace Stencil

namespace Text

def withoutBlanks (text : String) : String :=
  String.ofList (solidChars text.toList)

def SameSolid (first second : String) : Prop :=
  withoutBlanks first = withoutBlanks second

private theorem sameSolid_trimEnds (start stop : Bool) (text : String) :
    SameSolid text (trimEnds start stop text) := by
  unfold SameSolid withoutBlanks trimEnds
  rw [String.toList_ofList]
  cases start <;> cases stop <;> simp

end Text

/-- Whether texts that are the same to some measure stay so with others of the same behind
them. -/
structure Congruent (same : String → String → Prop) : Prop where
  refl : ∀ text, same text text
  append : ∀ {first other second another}, same first other → same second another →
    same (first ++ second) (other ++ another)

/-- Whether two outcomes are the same error, or texts that are the same to some measure. -/
inductive Matches (same : String → String → Prop) : Outcome → Outcome → Prop
  | text {first second : String} : same first second → Matches same (.ok first) (.ok second)
  | error (error : TemplateError) : Matches same (.error error) (.error error)

namespace Matches

variable {same : String → String → Prop} {first second : Outcome}

theorem bind
    (here : Matches same first second) {next other : String → Outcome}
    (later : ∀ text otherText, same text otherText →
      Matches same (next text) (other otherText)) :
    Matches same (first.bind next) (second.bind other) := by
  cases here with
  | text start => exact later _ _ start
  | error error => exact .error error

theorem foldlM
    {α : Type} {items : List α} {take other : String → α → Outcome}
    (each : ∀ item out otherOut, same out otherOut →
      Matches same (take out item) (other otherOut item))
    {out otherOut : String} (start : same out otherOut) :
    Matches same (items.foldlM take out) (items.foldlM other otherOut) := by
  induction items generalizing out otherOut with
  | nil => exact .text start
  | cons item rest inductionHypothesis =>
      rw [List.foldlM_cons, List.foldlM_cons]
      exact bind (each item out otherOut start) fun _ _ here => inductionHypothesis here

private theorem eq (here : Matches Eq first second) : first = second := by
  cases here with
  | text start => rw [start]
  | error error => rfl

private theorem map_eq
    (here : Matches same first second) {α : Type} {measure : String → α}
    (measured : ∀ text other, same text other → measure text = measure other) :
    first.map measure = second.map measure := by
  cases here with
  | text start => exact congrArg Except.ok (measured _ _ start)
  | error error => rfl

end Matches

namespace Style

variable {style : Style} {host : Host} {same : String → String → Prop}

/-- What is in the buffer before makes no difference, as long as it is the same. -/
theorem matches_renderNode
    (standard : style.helpers = .builtin) (congruent : Congruent same) (node : Node)
    (context : Context) {out otherOut : String} (start : same out otherOut) :
    Matches same (style.renderNode host node context out)
      (style.renderNode host node context otherOut) := by
  rw [style.renderNode_eq_map host standard node context out,
    style.renderNode_eq_map host standard node context otherOut]
  cases style.renderNode host node context "" with
  | error error => exact .error error
  | ok text => exact .text (congruent.append start (congruent.refl text))

private theorem matches_renderNode_block
    (standard : style.helpers = .builtin) (tags : BlockTags) {body otherBody : List Node}
    {inverse otherInverse : Option (List Node)}
    (bodies : ∀ context {out otherOut}, same out otherOut →
      Matches same (style.renderNodes host body context out)
        (style.renderNodes host otherBody context otherOut))
    (inverses : ∀ context {out otherOut}, same out otherOut →
      Matches same (style.renderNodes host (inverse.getD []) context out)
        (style.renderNodes host (otherInverse.getD []) context otherOut))
    (context : Context) {out otherOut : String} (start : same out otherOut) :
    Matches same (style.renderNode host (.block tags body inverse) context out)
      (style.renderNode host (.block tags otherBody otherInverse) context otherOut) := by
  rw [style.renderNode_block_turns host standard, style.renderNode_block_turns host standard]
  cases Plan.builtin? tags.helper with
  | none => exact .error _
  | some plan =>
      refine Matches.foldlM (fun turn out otherOut start => ?_) start
      by_cases main : turn.main = true
      · rw [if_pos main, if_pos main]
        exact bodies turn.context start
      · rw [if_neg main, if_neg main]
        exact inverses turn.context start

/-- Nodes that are respelled by a measure of texts render to the same by it. -/
theorem matches_renderNodes
    (standard : style.helpers = .builtin) (congruent : Congruent same) {nodes after : List Node}
    (respelled : Node.Respelled same nodes after) (context : Context) {out otherOut : String}
    (start : same out otherOut) :
    Matches same (style.renderNodes host nodes context out)
      (style.renderNodes host after context otherOut) := by
  induction respelled generalizing context out otherOut with
  | nil =>
      rw [renderNodes_nil, renderNodes_nil]
      exact .text start
  | keep node _ inductionHypothesis =>
      rw [renderNodes_cons, renderNodes_cons]
      apply Matches.bind (matches_renderNode standard congruent node context start)
      exact fun _ _ later => inductionHypothesis context later
  | text span spelled _ inductionHypothesis =>
      rw [renderNodes_text, renderNodes_text]
      exact inductionHypothesis context (congruent.append start spelled)
  | drop span spelled _ inductionHypothesis =>
      rw [renderNodes_text, ← String.append_empty (s := otherOut)]
      exact inductionHypothesis context (congruent.append start spelled)
  | block tags _ _ _ _ bodyHypothesis inverseHypothesis restHypothesis =>
      rw [renderNodes_cons, renderNodes_cons]
      apply Matches.bind (matches_renderNode_block standard tags bodyHypothesis
        inverseHypothesis context start)
      exact fun _ _ later => restHypothesis context later

private theorem congruent_eq : Congruent Eq where
  refl _ := rfl
  append := by
    rintro first _ second _ rfl rfl
    rfl

private theorem congruent_sameSolid : Congruent Text.SameSolid where
  refl _ := rfl
  append := by
    intro first other second another here later
    unfold Text.SameSolid Text.withoutBlanks at here later ⊢
    rw [String.toList_append, String.toList_append, Text.solidChars_append,
      Text.solidChars_append, String.ofList_injective here, String.ofList_injective later]

/-- A document renders the same before and after trimming, by a measure of texts that takes no
account of what its trim marks drop. -/
theorem matches_render_collapseWhitespace
    (standard : style.helpers = .builtin) (congruent : Congruent same) {allowed : Bool → Prop}
    (never : allowed false)
    (trims : ∀ start stop, allowed start → allowed stop →
      ∀ text, same text (trimEnds start stop text))
    {document : Document} (flagged : Node.Flagged allowed document.nodes) (context : Context) :
    Matches same (style.render host document context)
      (style.render host document.collapseWhitespace context) :=
  matches_renderNodes standard congruent
    (Document.respelled_collapseWhitespace never trims flagged) context (congruent.refl "")

/-- Trimming changes the blanks of a rendering at most, and nothing where no tag is marked. -/
theorem render_collapseWhitespace
    (style : Style) (standard : style.helpers = .builtin) (host : Host) (document : Document)
    (context : Context) :
    (style.render host document.collapseWhitespace context).map Text.withoutBlanks =
        (style.render host document context).map Text.withoutBlanks ∧
      (document.Unmarked → style.render host document.collapseWhitespace context =
        style.render host document context) := by
  constructor
  · have solid : Matches Text.SameSolid (style.render host document context)
        (style.render host document.collapseWhitespace context) := by
      apply @matches_render_collapseWhitespace _ _ _ standard congruent_sameSolid fun _ => True
      · trivial
      · exact fun start stop _ _ => Text.sameSolid_trimEnds start stop
      · exact fun _ _ _ _ => trivial
    exact (solid.map_eq fun _ _ same => same).symm
  · intro unmarked
    have whole : Matches Eq (style.render host document context)
        (style.render host document.collapseWhitespace context) := by
      refine matches_render_collapseWhitespace standard congruent_eq ?_ ?_ unmarked.flagged _
      · rfl
      · rintro _ _ rfl rfl text
        exact (trimEnds_unmarked text).symm
    exact whole.eq.symm

/-- A list of rows, one to a line, with marks at the tags of its block and without. -/
theorem render_collapseWhitespace_rows :
    let tags (trim : Trim) : BlockTags := ⟨"each", .current, trim, default, trim, default⟩
    let list (trim : Trim) : Document :=
      ⟨[.text "<ul>\n" default,
        .block (tags trim)
          [.text "\n  " default, .expression .current true default default,
            .text "\n" default, .partialTag "gap" none default default] none,
        .text "\n</ul>" default]⟩
    let host : Host := ⟨.standard, fun _ _ => .ok "-"⟩
    let context : Context := .ofModel (.array [.string "a b", .string "c"])
    let marked := list ⟨true, true⟩
    let plain := list ⟨false, false⟩
    Style.standard.render host marked.collapseWhitespace context =
        .ok "<ul>a b\n-c\n-</ul>" ∧
      Text.withoutBlanks "<ul>a b\n-c\n-</ul>" =
        Text.withoutBlanks "<ul>\n\n  a b\n-\n  c\n-\n</ul>" ∧
      plain.Unmarked ∧
      Style.standard.render host plain.collapseWhitespace context =
        .ok "<ul>\n\n  a b\n-\n  c\n-\n</ul>" := by
  intro tags list host context marked plain
  have collapsed : Style.standard.render host marked.collapseWhitespace context =
      .ok "<ul>a b\n-c\n-</ul>" := by
    rw [Document.collapseWhitespace_eq_trimmed]
    decide +kernel
  have before : Style.standard.render host marked context =
      .ok "<ul>\n\n  a b\n-\n  c\n-\n</ul>" := by
    decide +kernel
  have plainBefore : Style.standard.render host plain context =
      .ok "<ul>\n\n  a b\n-\n  c\n-\n</ul>" := by
    decide +kernel
  have unmarked : plain.Unmarked := by
    unfold Document.Unmarked
    decide
  have changed := render_collapseWhitespace .standard rfl host marked context
  have kept := render_collapseWhitespace .standard rfl host plain context
  rw [collapsed, before] at changed
  refine ⟨collapsed, Except.ok.inj changed.1, unmarked, ?_⟩
  rw [kept.2 unmarked, plainBefore]

end Style

end Stencil
