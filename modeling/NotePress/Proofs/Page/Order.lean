import NotePress.Proofs.Page.Course
import NotePress.Proofs.Page.Coverage

/-!
# The order of visits

A render takes up the blocks that it is given in turn, each once, and goes on to the next
one as long as no error stops it. This holds for the blocks of a document, and for those
inside a block.
-/

namespace NotePress
namespace Page

open Html (Piece)
open Document (Block)

/-- Visits that take up blocks in turn: all of them if no error stops the render, and
those in front otherwise. -/
structure TakesInTurn
    (visits : List Visit)
    (blocks : List Block)
    (failure : Option RenderError) : Prop where
  front : visits.map Visit.block <+: blocks
  whole : failure = none → visits.map Visit.block = blocks

/-- The blocks that stand directly inside the block of a visit, or in the document that
it brings in. -/
def Visit.parts (environment : Environment) (visit : Visit) : List Block :=
  match visit.block with
  | .heading _ children | .styled _ children | .orderedItem _ children
  | .unorderedItem children => children
  | .table rows => rows.flatMap List.flatten
  | .hashtag hashtag =>
      match visit.depth with
      | 0 => []
      | _ + 1 =>
          match transcluded? environment visit.context hashtag visit.session with
          | none => []
          | some (_, document) => document.flatten
  | _ => []

/-- The blocks of the document of a page, if the file of the page is open. -/
def Compilation.blocks
    (environment : Environment)
    (compilation : Compilation) : List Block :=
  match compilation.opened? environment with
  | none => []
  | some (_, document) => document.flatten

/-- The error that stops a compilation. -/
def Compilation.failure?
    (environment : Environment)
    (compilation : Compilation) : Option RenderError :=
  match (compilation.result environment).1 with
  | .error error => some error
  | .ok _ => none

/-- Visits from which everything is taken up in turn: what is inside a visit, and the
blocks in the page of a document that it links to. -/
structure GoesInTurn
    (environment : Environment)
    (visits : List Visit) : Prop where
  inside : ∀ visit, Occurs environment visits visit →
    TakesInTurn (visit.inside environment) (visit.parts environment)
      (visit.outcome environment).failure
  linked : ∀ visit next, Occurs environment visits visit →
    visit.starts? = some next →
    TakesInTurn (next.visits environment) (next.blocks environment)
      (next.failure? environment)

section Order

variable {environment : Environment}

theorem takesInTurn_nil (failure : Option RenderError) :
    TakesInTurn [] [] failure :=
  ⟨List.prefix_refl _, fun _ => rfl⟩

namespace TakesInTurn

/-- Things that are rendered in turn, each of which holds blocks. -/
theorem each
    {Item : Type}
    {render : Item → Session → Outcome}
    {inside : Site → Item → List Visit}
    {blocksOf : Item → List Block}
    (site : Site)
    (parts : ∀ item found, TakesInTurn (inside { site with session := found } item)
      (blocksOf item) (render item found).failure)
    (items : List Item) :
    TakesInTurn (site.each render inside items) (items.flatMap blocksOf)
      (inTurn render items site.session).failure := by
  obtain ⟨depth, context, around, session⟩ := site
  induction items generalizing session with
  | nil => exact takesInTurn_nil none
  | cons first others inductionHypothesis =>
      have here := parts first session
      rw [inTurn, List.flatMap_cons]
      cases failed : (render first session).failure with
      | some error =>
          have visits : (Site.mk depth context around session).each render inside
              (first :: others) = inside ⟨depth, context, around, session⟩ first := by
            rw [Site.each, begun, failed, List.flatMap_singleton]
          rw [visits, Outcome.andThen_of_failure failed, failed]
          exact ⟨here.front.trans (List.prefix_append _ _),
            fun none => absurd none (Option.some_ne_none _)⟩
      | none =>
          have visits : (Site.mk depth context around session).each render inside
              (first :: others) =
            inside ⟨depth, context, around, session⟩ first ++
              (Site.mk depth context around (render first session).session).each
                render inside others := by
            rw [Site.each, begun, failed, List.flatMap_cons]
            rfl
          have later := inductionHypothesis (render first session).session parts
          rw [visits, Outcome.andThen_of_complete failed]
          refine ⟨?_, fun complete => ?_⟩
          · rw [List.map_append, here.whole failed]
            exact (List.prefix_append_right_inj _).mpr later.front
          · rw [List.map_append, here.whole failed, later.whole complete]

variable
  (environment : Environment)
  (site : Site)

theorem blocks (blocks : List Block) :
    TakesInTurn (site.blocks environment blocks) blocks
      (renderBlocks environment (site.hashtags environment) blocks
        site.session).failure := by
  rw [renderBlocks_eq_inTurn]
  have taken := @each Block (renderBlock environment (site.hashtags environment))
    (fun site block => [⟨site, block⟩]) (fun block => [block]) site
    (fun _ _ => ⟨List.prefix_refl _, fun _ => rfl⟩) blocks
  rwa [List.flatMap_singleton'] at taken

/-- Blocks between pieces. -/
theorem entered
    (before after : List Piece)
    (blocks : List Block) :
    TakesInTurn ((site.enter before).blocks environment blocks) blocks
      (wrapped before after (renderBlocks environment (site.hashtags environment) blocks)
        site.session).failure := by
  rw [failure_wrapped]
  exact TakesInTurn.blocks environment (site.enter before) blocks

theorem cells (cells : List (List Block)) :
    TakesInTurn (site.cells environment cells) cells.flatten
      (renderCells environment (site.hashtags environment) cells
        site.session).failure := by
  rw [renderCells_eq_inTurn, ← List.flatMap_id]
  exact each site (fun cell found =>
    entered environment { site with session := found } _ _ cell) cells

theorem rows (rows : List (List (List Block))) :
    TakesInTurn (site.rows environment rows) (rows.flatMap List.flatten)
      (renderRows environment (site.hashtags environment) rows
        site.session).failure := by
  rw [renderRows_eq_inTurn]
  refine each site (fun row found => ?_) rows
  rw [renderRow, failure_wrapped]
  exact cells environment
    ({ site with session := found }.enter [.opening .row []]) row

theorem paragraphs (document : Document) :
    TakesInTurn (site.paragraphs environment document) document.flatten
      (renderParagraphs environment (site.hashtags environment) document
        site.session).failure := by
  rw [renderParagraphs_eq_inTurn, ← List.flatMap_id]
  refine each site (fun paragraph found => ?_) document
  rw [renderParagraph]
  split
  next empty =>
    rw [List.isEmpty_iff.mp empty]
    exact takesInTurn_nil _
  next => exact entered environment { site with session := found } _ _ paragraph

end TakesInTurn

/-- A hashtag takes up the document that it brings in, if it brings in one. -/
theorem takesInTurn_hashtag
    (site : Site)
    (hashtag : Document.Hashtag) :
    TakesInTurn ((Visit.mk site (.hashtag hashtag)).inside environment)
      ((Visit.mk site (.hashtag hashtag)).parts environment)
      (renderHashtag environment site.depth site.context hashtag
        site.session).failure := by
  cases deep : site.depth with
  | zero =>
      have parts : (Visit.mk site (.hashtag hashtag)).parts environment = [] := by
        simp only [Visit.parts, deep]
      rw [Visit.inside_alone (.inl deep), parts]
      exact takesInTurn_nil _
  | succ depth =>
      cases brings : transcluded? environment site.context hashtag site.session with
      | none =>
          have parts : (Visit.mk site (.hashtag hashtag)).parts environment = [] := by
            simp only [Visit.parts, deep, brings]
          rw [Visit.inside_alone (.inr brings), parts]
          exact takesInTurn_nil _
      | some found =>
          obtain ⟨inner, document⟩ := found
          have parts : (Visit.mk site (.hashtag hashtag)).parts environment =
              document.flatten := by
            simp only [Visit.parts, deep, brings]
          rw [Visit.inside_transcluded deep brings, parts,
            renderHashtag_of_transcluded brings]
          exact .paragraphs environment
            { site with depth := depth, context := inner } document

/-- A visit takes up what is inside it in turn. -/
theorem Visit.takesInTurn (visit : Visit) :
    TakesInTurn (visit.inside environment) (visit.parts environment)
      (visit.outcome environment).failure := by
  obtain ⟨site, block⟩ := visit
  rw [Visit.outcome_mk]
  cases block with
  | heading level children =>
      by_cases valid : 1 ≤ level ∧ level ≤ 6
      · rw [Visit.inside_heading valid, renderBlock, if_pos valid]
        exact .entered environment site _ _ children
      · rw [Visit.inside_invalidHeading valid, renderBlock, if_neg valid]
        exact ⟨List.nil_prefix, fun none => absurd none (Option.some_ne_none _)⟩
  | styled style children =>
      rw [renderBlock]
      exact .entered environment site _ _ children
  | orderedItem ordinal children =>
      rw [renderBlock]
      exact .entered environment site _ _ children
  | unorderedItem children =>
      rw [renderBlock]
      exact .entered environment site _ _ children
  | table rows =>
      rw [renderBlock, failure_wrapped]
      exact .rows environment
        (site.enter [.opening .table [.fixed "class" "table"]]) rows
  | hashtag hashtag =>
      rw [renderBlock]
      exact takesInTurn_hashtag site hashtag
  | _ => exact takesInTurn_nil _

/-- A page takes up the blocks of its document in turn. -/
theorem takesInTurn_renderEnvelope
    (depth : Nat)
    (context : Context)
    (document : Document)
    (session : Session) :
    TakesInTurn
      ((Site.ofPage environment depth context session).paragraphs environment document)
      document.flatten
      (renderEnvelope environment (renderHashtag environment depth context) document
        session).failure := by
  rw [renderEnvelope_eq, failure_followed,
    Outcome.andThen_of_complete (pageHead_complete environment session)]
  exact .paragraphs environment (Site.ofPage environment depth context session) document

/-- A compilation takes up the blocks of its document in turn. -/
theorem Compilation.takesInTurn (compilation : Compilation) :
    TakesInTurn (compilation.visits environment) (compilation.blocks environment)
      (compilation.failure? environment) := by
  cases opens : compilation.opened? environment with
  | none =>
      rw [visits, blocks, opens]
      exact takesInTurn_nil _
  | some found =>
      obtain ⟨opened, document⟩ := found
      rw [visits, blocks, opens, failure?, result_of_opened opens]
      have taken := @takesInTurn_renderEnvelope environment compilation.depth
        compilation.context document opened
      dsimp only
      generalize (renderEnvelope environment
        (renderHashtag environment compilation.depth compilation.context) document
        opened).failure = failure at taken ⊢
      cases failure with
      | none => exact taken
      | some error => exact taken

theorem goesInTurn (visits : List Visit) : GoesInTurn environment visits :=
  ⟨fun visit _ => visit.takesInTurn, fun _ next _ _ => next.takesInTurn⟩

end Order

end Page
end NotePress
