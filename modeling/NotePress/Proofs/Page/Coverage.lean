import NotePress.Proofs.Page.Leaves
import NotePress.Proofs.Page.Likeness

/-!
# Renders that complete

A render that nothing stops takes up every block of its document, and every visit in
it completes. So every hashtag of the document is visited, in the directory of the
document.
-/

namespace NotePress
namespace Page

open Html (Piece)
open Document (Block)

section Coverage

variable {environment : Environment}

/-- What is rendered between tags to its end is itself rendered to its end. -/
theorem complete_of_wrapped
    {before after : List Piece}
    {inside : Session → Outcome}
    {session : Session}
    (complete : (wrapped before after inside session).failure = none) :
    (inside (Outcome.emit before session).session).failure = none :=
  (complete_of_andThen (complete_of_andThen complete).1).2

/-- What is rendered in turn to its end takes up everything, and everything
completes. -/
theorem begun_of_complete
    {Item : Type}
    {render : Item → Session → Outcome}
    {items : List Item}
    {session : Session}
    (complete : (inTurn render items session).failure = none)
    {item : Item}
    (member : item ∈ items) :
    ∃ found, (item, found) ∈ begun render items session ∧
      (render item found).failure = none := by
  induction items generalizing session with
  | nil => cases member
  | cons first others inductionHypothesis =>
      obtain ⟨here, later⟩ := complete_of_andThen complete
      rw [begun, here]
      rcases List.mem_cons.mp member with rfl | behind
      · exact ⟨session, List.mem_cons_self, here⟩
      · obtain ⟨found, taken, complete⟩ := inductionHypothesis later behind
        exact ⟨found, List.mem_cons_of_mem _ taken, complete⟩

/-- What things write that are rendered in turn is in what they write together. -/
theorem exists_html_inTurn
    {Item : Type}
    {render : Item → Session → Outcome}
    {items : List Item}
    {session : Session}
    (complete : (inTurn render items session).failure = none)
    {item : Item}
    (member : item ∈ items) :
    ∃ found front back,
      (render item found).failure = none ∧
      (inTurn render items session).html =
        front ++ (render item found).html ++ back := by
  induction items generalizing session with
  | nil => cases member
  | cons first others inductionHypothesis =>
      obtain ⟨here, later⟩ := complete_of_andThen complete
      rw [inTurn, Outcome.andThen_of_complete here]
      rcases List.mem_cons.mp member with rfl | behind
      · exact ⟨session, [], _, here, rfl⟩
      · obtain ⟨found, front, back, done, written⟩ :=
          inductionHypothesis later behind
        refine ⟨found, (render first session).html ++ front, back, done, ?_⟩
        rw [written]
        simp only [List.append_assoc]

theorem inTurn_map
    {Item Other : Type}
    (render : Other → Session → Outcome)
    (function : Item → Other)
    (items : List Item)
    (session : Session) :
    inTurn render (items.map function) session =
      inTurn (fun item => render (function item)) items session := by
  induction items generalizing session with
  | nil => rfl
  | cons first others inductionHypothesis =>
      rw [List.map_cons, inTurn, inTurn, funext inductionHypothesis]

/-- Things that are rendered in turn write what each of them writes when it is
completed. -/
theorem html_inTurn_of_complete
    {Item : Type}
    {render : Item → Session → Outcome}
    {pieces : Item → List Piece}
    {items : List Item}
    (writes : ∀ item ∈ items, ∀ found, (render item found).failure = none →
      (render item found).html = pieces item)
    {session : Session}
    (complete : (inTurn render items session).failure = none) :
    (inTurn render items session).html = items.flatMap pieces := by
  induction items generalizing session with
  | nil => rfl
  | cons first others inductionHypothesis =>
      obtain ⟨here, later⟩ := complete_of_andThen complete
      obtain ⟨firstWrites, othersWrite⟩ := List.forall_mem_cons.mp writes
      rw [inTurn, Outcome.andThen_of_complete here, List.flatMap_cons,
        firstWrites session here, inductionHypothesis othersWrite later]

/-- What is rendered between tags to its end stands between them. -/
theorem html_wrapped_of_complete
    {before after : List Piece}
    {inside : Session → Outcome}
    {session : Session}
    (complete : (wrapped before after inside session).failure = none) :
    (wrapped before after inside session).html =
      before ++ (inside (Outcome.emit before session).session).html ++ after := by
  have opened : (Outcome.emit before session).failure = none := rfl
  have written := (complete_of_andThen complete).1
  rw [wrapped, Outcome.andThen_of_complete written,
    Outcome.andThen_of_complete opened]
  rfl

/-- A visit among others that takes up a block at a site, and completes. -/
def Covers
    (environment : Environment)
    (site : Site)
    (visits : List Visit)
    (block : Block) : Prop :=
  ∃ visit ∈ visits, visit.block = block ∧ visit.context = site.context ∧
    visit.depth = site.depth ∧ (visit.outcome environment).failure = none

/-- What is rendered in turn covers what each of its things covers. -/
theorem covers_each
    {Item : Type}
    {site : Site}
    {render : Item → Session → Outcome}
    {inside : Site → Item → List Visit}
    {items : List Item}
    (complete : (inTurn render items site.session).failure = none)
    {item : Item}
    (member : item ∈ items)
    {block : Block}
    (covers : ∀ found, (render item found).failure = none →
      Covers environment site (inside { site with session := found } item)
        block) :
    Covers environment site (site.each render inside items) block := by
  obtain ⟨found, taken, done⟩ := begun_of_complete complete member
  obtain ⟨visit, within, same⟩ := covers found done
  exact ⟨visit, Site.mem_each.mpr ⟨item, found, taken, within⟩, same⟩

/-- Blocks that are rendered to their end are covered. -/
theorem covers_blocks
    {site : Site}
    {blocks : List Block}
    (complete : (renderBlocks environment (site.hashtags environment) blocks
      site.session).failure = none)
    {block : Block}
    (member : block ∈ blocks) :
    Covers environment site (site.blocks environment blocks) block := by
  rw [renderBlocks_eq_inTurn] at complete
  exact covers_each complete member fun found done =>
    ⟨⟨{ site with session := found }, block⟩, List.mem_cons_self, rfl, rfl, rfl,
      done⟩

/-- Blocks between pieces. -/
theorem covers_entered
    {site : Site}
    {before after : List Piece}
    {blocks : List Block}
    (complete : (wrapped before after
      (renderBlocks environment (site.hashtags environment) blocks)
      site.session).failure = none)
    {block : Block}
    (member : block ∈ blocks) :
    Covers environment site ((site.enter before).blocks environment blocks)
      block :=
  covers_blocks (complete_of_wrapped complete) member

/-- Blocks in cells that are rendered to their end are covered. -/
theorem covers_cells
    {site : Site}
    {cells : List (List Block)}
    (complete : (renderCells environment (site.hashtags environment) cells
      site.session).failure = none)
    {cell : List Block}
    (member : cell ∈ cells)
    {block : Block}
    (inside : block ∈ cell) :
    Covers environment site (site.cells environment cells) block := by
  rw [renderCells_eq_inTurn] at complete
  refine covers_each complete member fun found done => ?_
  exact @covers_entered environment { site with session := found } _ _ _ done
    block inside

theorem covers_rows
    {site : Site}
    {rows : List (List (List Block))}
    (complete : (renderRows environment (site.hashtags environment) rows
      site.session).failure = none)
    {row : List (List Block)}
    (member : row ∈ rows)
    {cell : List Block}
    (inside : cell ∈ row)
    {block : Block}
    (within : block ∈ cell) :
    Covers environment site (site.rows environment rows) block := by
  rw [renderRows_eq_inTurn] at complete
  refine covers_each complete member fun found done => ?_
  exact @covers_cells environment
    ({ site with session := found }.enter [.opening .row []]) row
    (complete_of_wrapped done) cell inside block within

/-- Blocks in a document that is rendered to its end are covered. -/
theorem covers_paragraphs
    {site : Site}
    {document : Document}
    (complete : (renderParagraphs environment (site.hashtags environment) document
      site.session).failure = none)
    {paragraph : Paragraph}
    (member : paragraph ∈ document)
    {block : Block}
    (inside : block ∈ paragraph) :
    Covers environment site (site.paragraphs environment document) block := by
  rw [renderParagraphs_eq_inTurn] at complete
  refine covers_each complete member fun found done => ?_
  have busy : ¬paragraph.isEmpty = true := by
    intro empty
    rw [List.isEmpty_iff.mp empty] at inside
    cases inside
  rw [renderParagraph, if_neg busy] at done
  exact @covers_entered environment { site with session := found } _ _ _ done
    block inside

/-! ## Hashtags -/

/-- What is reached from visits that are reached is reached. -/
theorem Reached.trans
    {first later : List Visit}
    {visit : Visit}
    (reached : Reached environment later visit)
    (among : ∀ start ∈ later, Reached environment first start) :
    Reached environment first visit := by
  induction reached with
  | start member => exact among _ member
  | inside _ member inductionHypothesis => exact .inside inductionHypothesis member

/-- A visit that takes up a hashtag and completes, come to from others. -/
structure TakesUp
    (environment : Environment)
    (visits : List Visit)
    (context : Context)
    (hashtag : Document.Hashtag)
    (visit : Visit) : Prop where
  reached : Reached environment visits visit
  block : visit.block = .hashtag hashtag
  context : visit.context = context
  complete : (visit.outcome environment).failure = none

/-- A visit that completes takes up the hashtags in its block. -/
theorem Visit.takesUp
    {visit : Visit}
    (complete : (visit.outcome environment).failure = none)
    {hashtag : Document.Hashtag}
    (member : hashtag ∈ hashtagsInBlock visit.block) :
    ∃ found, TakesUp environment [visit] visit.context hashtag found := by
  induction visit using Visit.induction environment with
  | step visit inductionHypothesis =>
      -- A hashtag inside a part of the block is taken up where the part is visited.
      have inner : ∀ block, Covers environment visit.toSite
          (visit.inside environment) block → hashtag ∈ hashtagsInBlock block →
          ∃ found, TakesUp environment [visit] visit.context hashtag found := by
        rintro block ⟨next, inside, rfl, context, _, done⟩ within
        obtain ⟨found, takesUp⟩ := inductionHypothesis next inside done within
        refine ⟨found, ?_, takesUp.block, takesUp.context.trans context,
          takesUp.complete⟩
        exact takesUp.reached.trans (List.forall_mem_singleton.mpr
          (.inside (.start List.mem_cons_self) inside))
      obtain ⟨site, block⟩ := visit
      rw [outcome_mk] at complete
      cases block with
      | heading level children =>
          rw [hashtagsInBlock, hashtagsInBlocks_eq] at member
          obtain ⟨child, childMember, within⟩ := List.mem_flatMap.mp member
          by_cases valid : 1 ≤ level ∧ level ≤ 6
          · rw [renderBlock, if_pos valid] at complete
            rw [inside_heading valid] at inner
            exact inner child (covers_entered complete childMember) within
          · rw [renderBlock, if_neg valid] at complete
            cases complete
      | styled style children | orderedItem ordinal children
      | unorderedItem children =>
          rw [hashtagsInBlock, hashtagsInBlocks_eq] at member
          obtain ⟨child, childMember, within⟩ := List.mem_flatMap.mp member
          rw [renderBlock] at complete
          exact inner child (covers_entered complete childMember) within
      | table rows =>
          rw [hashtagsInBlock, hashtagsInRows_eq] at member
          obtain ⟨row, rowMember, member⟩ := List.mem_flatMap.mp member
          rw [hashtagsInGroups_eq] at member
          obtain ⟨cell, cellMember, member⟩ := List.mem_flatMap.mp member
          rw [hashtagsInBlocks_eq] at member
          obtain ⟨child, childMember, within⟩ := List.mem_flatMap.mp member
          rw [renderBlock] at complete
          refine inner child ?_ within
          exact @covers_rows environment
            (site.enter [.opening .table [.fixed "class" "table"]]) rows
            (complete_of_wrapped complete) row rowMember cell cellMember child
            childMember
      | hashtag other =>
          rw [hashtagsInBlock, List.mem_singleton] at member
          exact ⟨⟨site, .hashtag other⟩, .start List.mem_cons_self,
            congrArg _ member.symm, rfl, complete⟩
      | _ => cases member

/-- A document that is rendered to its end has its hashtags taken up. -/
theorem takesUp_of_complete
    {site : Site}
    {document : Document}
    (complete : (renderParagraphs environment (site.hashtags environment) document
      site.session).failure = none)
    {hashtag : Document.Hashtag}
    (member : hashtag ∈ hashtagsInGroups document) :
    ∃ visit, TakesUp environment (site.paragraphs environment document)
      site.context hashtag visit := by
  rw [hashtagsInGroups_eq] at member
  obtain ⟨paragraph, paragraphMember, member⟩ := List.mem_flatMap.mp member
  rw [hashtagsInBlocks_eq] at member
  obtain ⟨block, blockMember, within⟩ := List.mem_flatMap.mp member
  obtain ⟨visit, inside, rfl, context, _, done⟩ :=
    covers_paragraphs complete paragraphMember blockMember
  obtain ⟨found, takesUp⟩ := visit.takesUp done within
  exact ⟨found, takesUp.reached.mono fun first single => by
      rwa [List.mem_singleton.mp single],
    takesUp.block, takesUp.context.trans context, takesUp.complete⟩

end Coverage

end Page
end NotePress
