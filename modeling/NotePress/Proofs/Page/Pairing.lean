import NotePress.Proofs.Page.Composition

/-!
# Two renders side by side

Two renders of the same blocks may differ in their environments, contexts, depths
and sessions. They take up the same blocks in the same order, and what the visits of
one block have in common goes from the visits to the whole.
-/

namespace NotePress
namespace Page

open Html (Piece)
open Document (Block)

/-- A relation between two renders, told by the visits in each and by what comes of
each, that goes from the parts to the whole. Renders go on side by side from sessions
that are alike; after an error no visits follow. -/
structure Lockstep
    (alike : Session → Session → Prop)
    (agree : List Visit → List Visit → Outcome → Outcome → Prop) : Prop where
  done : ∀ {left right : Session}, alike left right →
    agree [] [] (.done left) (.done right)
  emit : ∀ {left right : Session} (pieces : List Piece), alike left right →
    agree [] [] (.emit pieces left) (.emit pieces right)
  andThen : ∀ {leftVisits rightVisits leftLater rightLater : List Visit}
    {left right : Outcome} {leftNext rightNext : Session → Outcome},
    agree leftVisits rightVisits left right →
    (∀ error, left.failure = some error → leftLater = []) →
    (∀ error, right.failure = some error → rightLater = []) →
    (alike left.session right.session → left.failure = none →
      right.failure = none →
      agree leftLater rightLater (leftNext left.session)
        (rightNext right.session)) →
    agree (leftVisits ++ leftLater) (rightVisits ++ rightLater)
      (left.andThen leftNext) (right.andThen rightNext)

/-- Visits of one block that find alike sessions agree. -/
def InStep
    (alike : Session → Session → Prop)
    (agree : List Visit → List Visit → Outcome → Outcome → Prop)
    (leftEnvironment rightEnvironment : Environment)
    (leftVisits rightVisits : List Visit) : Prop :=
  ∀ left ∈ leftVisits, ∀ right ∈ rightVisits, left.block = right.block →
    alike left.session right.session →
    agree [left] [right] (left.outcome leftEnvironment)
      (right.outcome rightEnvironment)

namespace Lockstep

variable
  {alike : Session → Session → Prop}
  {agree : List Visit → List Visit → Outcome → Outcome → Prop}
  (lockstep : Lockstep alike agree)
  {leftEnvironment rightEnvironment : Environment}

include lockstep

/-- Something without visits follows. -/
theorem followed
    {leftVisits rightVisits : List Visit}
    {left right : Outcome}
    {leftNext rightNext : Session → Outcome}
    (front : agree leftVisits rightVisits left right)
    (back : alike left.session right.session → left.failure = none →
      right.failure = none →
      agree [] [] (leftNext left.session) (rightNext right.session)) :
    agree leftVisits rightVisits (left.andThen leftNext)
      (right.andThen rightNext) := by
  have whole := lockstep.andThen front (fun _ _ => rfl) (fun _ _ => rfl) back
  rwa [List.append_nil, List.append_nil] at whole

/-- The same pieces around content. -/
theorem wrapped
    {leftVisits rightVisits : List Visit}
    {before after : List Piece}
    {leftInside rightInside : Session → Outcome}
    {left right : Session}
    (start : alike left right)
    (within :
      let leftOpened := (Outcome.emit before left).session
      let rightOpened := (Outcome.emit before right).session
      alike leftOpened rightOpened →
        agree leftVisits rightVisits (leftInside leftOpened)
          (rightInside rightOpened)) :
    agree leftVisits rightVisits (Page.wrapped before after leftInside left)
      (Page.wrapped before after rightInside right) := by
  refine lockstep.followed (lockstep.andThen (lockstep.emit before start)
    ?_ ?_ ?_) ?_
  · exact fun _ failed => absurd failed.symm (Option.some_ne_none _)
  · exact fun _ failed => absurd failed.symm (Option.some_ne_none _)
  · exact fun opened _ _ => within opened
  · exact fun inside _ _ => lockstep.emit after inside

/-- Things rendered in turn. -/
theorem each
    {Item : Type}
    {leftRender rightRender : Item → Session → Outcome}
    {leftInside rightInside : Site → Item → List Visit}
    {items : List Item}
    (left right : Site)
    (start : alike left.session right.session)
    (parts : ∀ item leftFound rightFound,
      (item, leftFound) ∈ begun leftRender items left.session →
      (item, rightFound) ∈ begun rightRender items right.session →
      alike leftFound rightFound →
      agree (leftInside { left with session := leftFound } item)
        (rightInside { right with session := rightFound } item)
        (leftRender item leftFound) (rightRender item rightFound)) :
    agree (left.each leftRender leftInside items)
      (right.each rightRender rightInside items)
      (inTurn leftRender items left.session)
      (inTurn rightRender items right.session) := by
  obtain ⟨leftDepth, leftContext, leftAround, leftSession⟩ := left
  obtain ⟨rightDepth, rightContext, rightAround, rightSession⟩ := right
  induction items generalizing leftSession rightSession with
  | nil => exact lockstep.done start
  | cons first others inductionHypothesis =>
      have here := parts first leftSession rightSession List.mem_cons_self
        List.mem_cons_self start
      simp only [Site.each, begun, List.flatMap_cons, inTurn] at parts ⊢
      refine lockstep.andThen here ?_ ?_ ?_
      · intro error failure
        rw [failure]
        rfl
      · intro error failure
        rw [failure]
        rfl
      · intro later leftComplete rightComplete
        rw [leftComplete, rightComplete] at parts
        rw [leftComplete, rightComplete]
        exact inductionHypothesis _ _ later fun item leftFound rightFound leftTaken
          rightTaken => parts item leftFound rightFound
            (List.mem_cons_of_mem _ leftTaken) (List.mem_cons_of_mem _ rightTaken)

section Sites

variable
  (left right : Site)
  (start : alike left.session right.session)

include start

theorem blocks
    {blocks : List Block}
    (parts : InStep alike agree leftEnvironment rightEnvironment
      (left.blocks leftEnvironment blocks)
      (right.blocks rightEnvironment blocks)) :
    agree (left.blocks leftEnvironment blocks)
      (right.blocks rightEnvironment blocks)
      (renderBlocks leftEnvironment (left.hashtags leftEnvironment) blocks
        left.session)
      (renderBlocks rightEnvironment (right.hashtags rightEnvironment) blocks
        right.session) := by
  rw [renderBlocks_eq_inTurn, renderBlocks_eq_inTurn]
  refine lockstep.each left right start fun block leftFound rightFound leftTaken
    rightTaken found => ?_
  exact parts ⟨{ left with session := leftFound }, block⟩
    (Site.mem_each.mpr ⟨block, leftFound, leftTaken, List.mem_cons_self⟩)
    ⟨{ right with session := rightFound }, block⟩
    (Site.mem_each.mpr ⟨block, rightFound, rightTaken, List.mem_cons_self⟩)
    rfl found

/-- The blocks between the same pieces. -/
theorem entered
    {before after : List Piece}
    {blocks : List Block}
    (parts : InStep alike agree leftEnvironment rightEnvironment
      ((left.enter before).blocks leftEnvironment blocks)
      ((right.enter before).blocks rightEnvironment blocks)) :
    agree ((left.enter before).blocks leftEnvironment blocks)
      ((right.enter before).blocks rightEnvironment blocks)
      (Page.wrapped before after
        (renderBlocks leftEnvironment (left.hashtags leftEnvironment) blocks)
        left.session)
      (Page.wrapped before after
        (renderBlocks rightEnvironment (right.hashtags rightEnvironment) blocks)
        right.session) :=
  lockstep.wrapped start fun opened =>
    lockstep.blocks (left.enter before) (right.enter before) opened parts

theorem cells
    {cells : List (List Block)}
    (parts : InStep alike agree leftEnvironment rightEnvironment
      (left.cells leftEnvironment cells)
      (right.cells rightEnvironment cells)) :
    agree (left.cells leftEnvironment cells) (right.cells rightEnvironment cells)
      (renderCells leftEnvironment (left.hashtags leftEnvironment) cells
        left.session)
      (renderCells rightEnvironment (right.hashtags rightEnvironment) cells
        right.session) := by
  rw [renderCells_eq_inTurn, renderCells_eq_inTurn]
  refine lockstep.each left right start fun cell leftFound rightFound leftTaken
    rightTaken found => ?_
  refine lockstep.entered { left with session := leftFound }
    { right with session := rightFound } found ?_
  intro leftVisit leftMember rightVisit rightMember
  exact parts leftVisit (Site.mem_each.mpr ⟨cell, leftFound, leftTaken, leftMember⟩)
    rightVisit (Site.mem_each.mpr ⟨cell, rightFound, rightTaken, rightMember⟩)

theorem rows
    {rows : List (List (List Block))}
    (parts : InStep alike agree leftEnvironment rightEnvironment
      (left.rows leftEnvironment rows)
      (right.rows rightEnvironment rows)) :
    agree (left.rows leftEnvironment rows) (right.rows rightEnvironment rows)
      (renderRows leftEnvironment (left.hashtags leftEnvironment) rows
        left.session)
      (renderRows rightEnvironment (right.hashtags rightEnvironment) rows
        right.session) := by
  rw [renderRows_eq_inTurn, renderRows_eq_inTurn]
  refine lockstep.each left right start fun row leftFound rightFound leftTaken
    rightTaken found => lockstep.wrapped found fun opened => ?_
  refine lockstep.cells
    ({ left with session := leftFound }.enter [.opening .row []])
    ({ right with session := rightFound }.enter [.opening .row []]) opened ?_
  intro leftVisit leftMember rightVisit rightMember
  exact parts leftVisit (Site.mem_each.mpr ⟨row, leftFound, leftTaken, leftMember⟩)
    rightVisit (Site.mem_each.mpr ⟨row, rightFound, rightTaken, rightMember⟩)

theorem paragraphs
    {document : Document}
    (parts : InStep alike agree leftEnvironment rightEnvironment
      (left.paragraphs leftEnvironment document)
      (right.paragraphs rightEnvironment document)) :
    agree (left.paragraphs leftEnvironment document)
      (right.paragraphs rightEnvironment document)
      (renderParagraphs leftEnvironment (left.hashtags leftEnvironment) document
        left.session)
      (renderParagraphs rightEnvironment (right.hashtags rightEnvironment)
        document right.session) := by
  rw [renderParagraphs_eq_inTurn, renderParagraphs_eq_inTurn]
  refine lockstep.each left right start fun paragraph leftFound rightFound leftTaken
    rightTaken found => ?_
  rw [renderParagraph, renderParagraph]
  split
  next empty =>
    rw [List.isEmpty_iff.mp empty]
    exact lockstep.done found
  · refine lockstep.entered { left with session := leftFound }
      { right with session := rightFound } found ?_
    intro leftVisit leftMember rightVisit rightMember
    exact parts leftVisit
      (Site.mem_each.mpr ⟨paragraph, leftFound, leftTaken, leftMember⟩)
      rightVisit
      (Site.mem_each.mpr ⟨paragraph, rightFound, rightTaken, rightMember⟩)

end Sites

/-- Containers of one block, apart from documents that hashtags bring in. -/
theorem inside
    {left right : Visit}
    (same : left.block = right.block)
    (start : alike left.session right.session)
    (contains : left.Contains leftEnvironment)
    (noHashtag : ∀ hashtag, left.block ≠ .hashtag hashtag)
    (parts : InStep alike agree leftEnvironment rightEnvironment
      (left.inside leftEnvironment) (right.inside rightEnvironment)) :
    agree (left.inside leftEnvironment) (right.inside rightEnvironment)
      (left.outcome leftEnvironment) (right.outcome rightEnvironment) := by
  obtain ⟨left, block⟩ := left
  obtain ⟨right, other⟩ := right
  obtain rfl : block = other := same
  have leftUnfolded : (Visit.mk left block).outcome leftEnvironment =
      renderBlock leftEnvironment (left.hashtags leftEnvironment) block
        left.session := rfl
  have rightUnfolded : (Visit.mk right block).outcome rightEnvironment =
      renderBlock rightEnvironment (right.hashtags rightEnvironment) block
        right.session := rfl
  rw [leftUnfolded, rightUnfolded]
  cases block with
  | heading level children =>
      have valid : 1 ≤ level ∧ level ≤ 6 := contains
      rw [Visit.inside_heading valid, Visit.inside_heading valid] at parts ⊢
      rw [renderBlock, renderBlock, if_pos valid, if_pos valid]
      exact lockstep.entered left right start parts
  | styled style children =>
      rw [renderBlock, renderBlock]
      exact lockstep.entered left right start parts
  | orderedItem ordinal children =>
      rw [renderBlock, renderBlock]
      exact lockstep.entered left right start parts
  | unorderedItem children =>
      rw [renderBlock, renderBlock]
      exact lockstep.entered left right start parts
  | table rows =>
      rw [renderBlock, renderBlock]
      exact lockstep.wrapped start fun opened =>
        lockstep.rows
          (left.enter [.opening .table [.fixed "class" "table"]])
          (right.enter [.opening .table [.fixed "class" "table"]]) opened parts
  | hashtag hashtag => exact absurd rfl (noHashtag hashtag)
  | _ => exact contains.elim

/-- A quotation is its text, and its author after it. -/
theorem quotation
    (quotation : Document.Quotation)
    {left right : Session}
    (start : alike left right) :
    agree [] [] (renderQuotation quotation left)
      (renderQuotation quotation right) := by
  rw [renderQuotation, renderQuotation]
  split
  · exact lockstep.emit _ start
  · exact lockstep.followed (lockstep.emit _ start)
      fun later _ _ => lockstep.emit _ later

theorem pageHead
    {left right : Session}
    (options : leftEnvironment.options = rightEnvironment.options)
    (start : alike left right) :
    agree [] [] (Page.pageHead leftEnvironment left)
      (Page.pageHead rightEnvironment right) := by
  have sheets : ∀ hrefs {left right : Session}, alike left right →
      agree [] [] (renderStylesheets hrefs left)
        (renderStylesheets hrefs right) := by
    intro hrefs
    induction hrefs with
    | nil => exact fun start => lockstep.done start
    | cons first others inductionHypothesis =>
        exact fun start => lockstep.followed (lockstep.emit _ start)
          fun later _ _ => inductionHypothesis later
  rw [Page.pageHead, Page.pageHead, options]
  exact lockstep.followed (lockstep.followed (lockstep.emit _ start)
    fun later _ _ => sheets _ later) fun later _ _ => lockstep.emit _ later

/-- Whole pages, when their documents agree. -/
theorem envelope
    {leftVisits rightVisits : List Visit}
    {left right : Session}
    {leftHashtags rightHashtags : Document.Hashtag → Session → Outcome}
    {leftDocument rightDocument : Document}
    (options : leftEnvironment.options = rightEnvironment.options)
    (start : alike left right)
    (within :
      let leftOpened := (Page.pageHead leftEnvironment left).session
      let rightOpened := (Page.pageHead rightEnvironment right).session
      alike leftOpened rightOpened →
      agree leftVisits rightVisits
        (renderParagraphs leftEnvironment leftHashtags leftDocument leftOpened)
        (renderParagraphs rightEnvironment rightHashtags rightDocument
          rightOpened)) :
    agree leftVisits rightVisits
      (renderEnvelope leftEnvironment leftHashtags leftDocument left)
      (renderEnvelope rightEnvironment rightHashtags rightDocument right) := by
  rw [renderEnvelope_eq, renderEnvelope_eq]
  refine lockstep.followed (lockstep.andThen (lockstep.pageHead options start)
    ?_ ?_ fun opened _ _ => within opened) fun inside _ _ => lockstep.emit _ inside
  · intro error failed
    rw [pageHead_complete] at failed
    cases failed
  · intro error failed
    rw [pageHead_complete] at failed
    cases failed

end Lockstep

/-! ## Outcomes alone -/

/-- A relation between the outcomes of two renders that goes from the parts to the
whole. Renders go on side by side from sessions that are alike. -/
structure Pairing
    (alike : Session → Session → Prop)
    (agree : Outcome → Outcome → Prop) : Prop where
  done : ∀ {left right : Session}, alike left right →
    agree (.done left) (.done right)
  emit : ∀ {left right : Session} (pieces : List Piece), alike left right →
    agree (.emit pieces left) (.emit pieces right)
  andThen : ∀ {left right : Outcome} {leftNext rightNext : Session → Outcome},
    agree left right →
    (alike left.session right.session → left.failure = none →
      right.failure = none →
      agree (leftNext left.session) (rightNext right.session)) →
    agree (left.andThen leftNext) (right.andThen rightNext)

/-- Visits of one block that find alike sessions have outcomes that agree. -/
def Agreeing
    (alike : Session → Session → Prop)
    (agree : Outcome → Outcome → Prop)
    (leftEnvironment rightEnvironment : Environment)
    (leftVisits rightVisits : List Visit) : Prop :=
  ∀ left ∈ leftVisits, ∀ right ∈ rightVisits, left.block = right.block →
    alike left.session right.session →
    agree (left.outcome leftEnvironment) (right.outcome rightEnvironment)

namespace Pairing

variable
  {alike : Session → Session → Prop}
  {agree : Outcome → Outcome → Prop}
  (pairing : Pairing alike agree)
  {leftEnvironment rightEnvironment : Environment}

include pairing

/-- A relation between outcomes says nothing about visits. -/
theorem lockstep : Lockstep alike fun _ _ => agree where
  done := pairing.done
  emit := pairing.emit
  andThen := fun front _ _ back => pairing.andThen front back

theorem paragraphs
    (left right : Site)
    (start : alike left.session right.session)
    {document : Document}
    (parts : Agreeing alike agree leftEnvironment rightEnvironment
      (left.paragraphs leftEnvironment document)
      (right.paragraphs rightEnvironment document)) :
    agree
      (renderParagraphs leftEnvironment (left.hashtags leftEnvironment) document
        left.session)
      (renderParagraphs rightEnvironment (right.hashtags rightEnvironment)
        document right.session) :=
  pairing.lockstep.paragraphs left right start parts

/-- Containers of one block, apart from documents that hashtags bring in. -/
theorem inside
    {left right : Visit}
    (same : left.block = right.block)
    (start : alike left.session right.session)
    (contains : left.Contains leftEnvironment)
    (noHashtag : ∀ hashtag, left.block ≠ .hashtag hashtag)
    (parts : Agreeing alike agree leftEnvironment rightEnvironment
      (left.inside leftEnvironment) (right.inside rightEnvironment)) :
    agree (left.outcome leftEnvironment) (right.outcome rightEnvironment) :=
  pairing.lockstep.inside same start contains noHashtag parts

/-- Whole pages, when their documents agree. -/
theorem envelope
    {left right : Session}
    {leftHashtags rightHashtags : Document.Hashtag → Session → Outcome}
    {leftDocument rightDocument : Document}
    (options : leftEnvironment.options = rightEnvironment.options)
    (start : alike left right)
    (within :
      let leftOpened := (pageHead leftEnvironment left).session
      let rightOpened := (pageHead rightEnvironment right).session
      alike leftOpened rightOpened →
      agree
        (renderParagraphs leftEnvironment leftHashtags leftDocument leftOpened)
        (renderParagraphs rightEnvironment rightHashtags rightDocument
          rightOpened)) :
    agree (renderEnvelope leftEnvironment leftHashtags leftDocument left)
      (renderEnvelope rightEnvironment rightHashtags rightDocument right) :=
  @Lockstep.envelope _ _ pairing.lockstep _ _ [] [] _ _ _ _ _ _ options start
    within

end Pairing

end Page
end NotePress
