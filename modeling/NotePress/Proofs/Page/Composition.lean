import NotePress.Proofs.Page.Traversal

/-!
# Renders from visits

What holds of the visits in a render holds of the whole render, if it goes through
outcomes one after the other and through the pieces put around content.
-/

namespace NotePress
namespace Page

open Html (Piece)
open Document (Block)

/-- Pairs of pieces that may stand around content, those of all containers among
them. -/
structure Framing (framed : List Piece → List Piece → Prop) : Prop where
  heading : ∀ {level : Nat}, 1 ≤ level ∧ level ≤ 6 →
    framed [.opening (.heading level) []] [.closing (.heading level)]
  styled : ∀ style,
    framed [.opening (styleTag style) []] [.closing (styleTag style)]
  orderedItem : ∀ ordinal : Nat,
    framed
      [.opening .orderedList [.given "start" (toString ordinal)],
        .opening .item []]
      [.closing .item, .closing .orderedList]
  unorderedItem : framed [.opening .unorderedList [], .opening .item []]
    [.closing .item, .closing .unorderedList]
  table : framed [.opening .table [.fixed "class" "table"]] [.closing .table]
  row : framed [.opening .row []] [.closing .row]
  cell : framed [.opening .cell []] [.closing .cell]
  paragraph : framed [.opening .paragraph []]
    [.closing .paragraph, .constant "\n\n"]

/-- A relation between the site of a render, the visits in it and its outcome, which
goes from the parts to the whole. After an error no visits follow; of the site only
the open elements and the session matter. -/
structure Compositional
    (framed : List Piece → List Piece → Prop)
    (holds : Site → List Visit → Outcome → Prop) : Prop where
  framing : Framing framed
  done : ∀ site, holds site [] (.done site.session)
  andThen : ∀ {site : Site} {visits later : List Visit} {first : Outcome}
    {next : Session → Outcome},
    holds site visits first →
    (∀ error, first.failure = some error → later = []) →
    (first.failure = none →
      holds { site with session := first.session } later
        (next first.session)) →
    holds site (visits ++ later) (first.andThen next)
  between : ∀ {site : Site} {visits : List Visit} {before after : List Piece}
    {inside : Session → Outcome},
    framed before after →
    holds (site.enter before) visits (inside (site.enter before).session) →
    holds site visits (wrapped before after inside site.session)
  moved : ∀ {site : Site} {visits : List Visit} {outcome : Outcome}
    (depth : Nat) (context : Context),
    holds { site with depth := depth, context := context } visits outcome →
    holds site visits outcome

/-- A visit that takes up a container: its outcome is that of what is inside, with
pieces around it or without. -/
def Visit.Contains (environment : Environment) (visit : Visit) : Prop :=
  match visit.block with
  | .heading level _ => 1 ≤ level ∧ level ≤ 6
  | .styled _ _ | .orderedItem _ _ | .unorderedItem _ | .table _ => True
  | .hashtag hashtag =>
      ¬(visit.depth = 0 ∨
        transcluded? environment visit.context hashtag visit.session = none)
  | _ => False

/-- Nothing is visited inside a visit that takes up no container. -/
theorem Visit.inside_of_leaf
    {environment : Environment}
    {visit : Visit}
    (leaf : ¬visit.Contains environment) :
    visit.inside environment = [] := by
  obtain ⟨site, block⟩ := visit
  cases block with
  | heading level children => exact Visit.inside_invalidHeading leaf
  | hashtag hashtag => exact Visit.inside_alone (Classical.not_not.mp leaf)
  | styled _ _ | orderedItem _ _ | unorderedItem _ | table _ =>
      exact (leaf trivial).elim
  | _ => rfl

namespace Compositional

variable
  {framed : List Piece → List Piece → Prop}
  {holds : Site → List Visit → Outcome → Prop}
  (compositional : Compositional framed holds)
  {environment : Environment}
  (site : Site)

include compositional

/-- Things rendered in turn. -/
theorem each
    {Item : Type}
    {render : Item → Session → Outcome}
    {inside : Site → Item → List Visit}
    {items : List Item}
    (parts : ∀ item session,
      (item, session) ∈ begun render items site.session →
      holds { site with session := session }
        (inside { site with session := session } item) (render item session)) :
    holds site (site.each render inside items)
      (inTurn render items site.session) := by
  obtain ⟨depth, context, around, session⟩ := site
  induction items generalizing session with
  | nil => exact compositional.done _
  | cons first others inductionHypothesis =>
      have here := parts first session List.mem_cons_self
      simp only [Site.each, begun, List.flatMap_cons, inTurn] at parts ⊢
      refine compositional.andThen here ?_ ?_
      · intro error failure
        rw [failure]
        rfl
      · intro complete
        rw [complete] at parts ⊢
        exact inductionHypothesis _ fun item found member =>
          parts item found (List.mem_cons_of_mem _ member)

theorem blocks
    {blocks : List Block}
    (parts : ∀ visit ∈ site.blocks environment blocks,
      holds visit.toSite [visit] (visit.outcome environment)) :
    holds site (site.blocks environment blocks)
      (renderBlocks environment (site.hashtags environment) blocks
        site.session) := by
  rw [renderBlocks_eq_inTurn]
  refine compositional.each site fun block session taken => ?_
  refine parts ⟨{ site with session := session }, block⟩ ?_
  exact Site.mem_each.mpr ⟨block, session, taken, List.mem_cons_self⟩

/-- The blocks between framing pieces. -/
theorem entered
    {before after : List Piece}
    {blocks : List Block}
    (frame : framed before after)
    (parts : ∀ visit ∈ (site.enter before).blocks environment blocks,
      holds visit.toSite [visit] (visit.outcome environment)) :
    holds site ((site.enter before).blocks environment blocks)
      (wrapped before after
        (renderBlocks environment (site.hashtags environment) blocks)
        site.session) :=
  compositional.between frame (compositional.blocks (site.enter before) parts)

theorem cells
    {cells : List (List Block)}
    (parts : ∀ visit ∈ site.cells environment cells,
      holds visit.toSite [visit] (visit.outcome environment)) :
    holds site (site.cells environment cells)
      (renderCells environment (site.hashtags environment) cells
        site.session) := by
  rw [renderCells_eq_inTurn]
  refine compositional.each site fun cell session taken => ?_
  refine compositional.entered { site with session := session }
    compositional.framing.cell fun visit member => ?_
  exact parts visit (Site.mem_each.mpr ⟨cell, session, taken, member⟩)

theorem rows
    {rows : List (List (List Block))}
    (parts : ∀ visit ∈ site.rows environment rows,
      holds visit.toSite [visit] (visit.outcome environment)) :
    holds site (site.rows environment rows)
      (renderRows environment (site.hashtags environment) rows
        site.session) := by
  rw [renderRows_eq_inTurn]
  refine compositional.each site fun row session taken => ?_
  have entered := compositional.cells
    ({ site with session := session }.enter [.opening .row []])
    fun visit member =>
      parts visit (Site.mem_each.mpr ⟨row, session, taken, member⟩)
  exact compositional.between compositional.framing.row entered

theorem paragraphs
    {document : Document}
    (parts : ∀ visit ∈ site.paragraphs environment document,
      holds visit.toSite [visit] (visit.outcome environment)) :
    holds site (site.paragraphs environment document)
      (renderParagraphs environment (site.hashtags environment) document
        site.session) := by
  rw [renderParagraphs_eq_inTurn]
  refine compositional.each site fun paragraph session taken => ?_
  rw [renderParagraph]
  split
  next empty =>
    rw [List.isEmpty_iff.mp empty]
    exact compositional.done _
  next =>
    refine compositional.entered { site with session := session }
      compositional.framing.paragraph fun visit member => ?_
    exact parts visit
      (Site.mem_each.mpr ⟨paragraph, session, taken, member⟩)

/-- What is inside a container makes up all of it. -/
theorem inside
    {visit : Visit}
    (contains : visit.Contains environment)
    (parts : ∀ inner ∈ visit.inside environment,
      holds inner.toSite [inner] (inner.outcome environment)) :
    holds visit.toSite (visit.inside environment)
      (visit.outcome environment) := by
  obtain ⟨site, block⟩ := visit
  rw [Visit.outcome_mk]
  cases block with
  | heading level children =>
      have valid : 1 ≤ level ∧ level ≤ 6 := contains
      rw [Visit.inside_heading valid] at parts ⊢
      rw [renderBlock, if_pos valid]
      exact compositional.entered site (compositional.framing.heading valid)
        parts
  | styled style children =>
      rw [renderBlock]
      exact compositional.entered site (compositional.framing.styled style)
        parts
  | orderedItem ordinal children =>
      rw [renderBlock]
      exact compositional.entered site
        (compositional.framing.orderedItem ordinal) parts
  | unorderedItem children =>
      rw [renderBlock]
      exact compositional.entered site compositional.framing.unorderedItem
        parts
  | table rows =>
      rw [renderBlock]
      exact compositional.between compositional.framing.table
        (compositional.rows
          (site.enter [.opening .table [.fixed "class" "table"]]) parts)
  | hashtag hashtag =>
      obtain ⟨notShallow, brought⟩ := not_or.mp contains
      obtain ⟨⟨context, document⟩, brings⟩ :=
        Option.ne_none_iff_exists'.mp brought
      obtain ⟨depth, deep⟩ := Nat.exists_eq_succ_of_ne_zero notShallow
      rw [Visit.inside_transcluded deep brings] at parts ⊢
      rw [renderBlock, Site.hashtags, deep, renderHashtag_of_transcluded brings]
      exact compositional.moved depth context (compositional.paragraphs
        { site with depth := depth, context := context } parts)
  | _ => exact contains.elim

end Compositional

end Page
end NotePress
