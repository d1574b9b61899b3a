import NotePress.Proofs.Page.Leaves

/-!
# Whole pages

The envelope of a page is closed at its end, by a piece that documents do not write.
So a page is whole exactly when nothing stopped its compilation.
-/

namespace NotePress
namespace Page

open Html (Piece)
open Document (Block)

/-- Pieces that do not close a page. -/
def Unclosed (pieces : List Piece) : Prop :=
  .closing .html ∉ pieces

theorem Unclosed.append
    {left right : List Piece}
    (leftUnclosed : Unclosed left)
    (rightUnclosed : Unclosed right) :
    Unclosed (left ++ right) :=
  fun member => (List.mem_append.mp member).elim leftUnclosed rightUnclosed

theorem unclosed_nil : Unclosed [] :=
  List.not_mem_nil

section Unclosed

variable {environment : Environment}

theorem framing_unclosed :
    Framing fun before after => Unclosed before ∧ Unclosed after where
  heading := fun _ => by simp [Unclosed]
  styled := fun style => by cases style <;> simp [Unclosed, styleTag]
  orderedItem := fun _ => by simp [Unclosed]
  unorderedItem := by simp [Unclosed]
  table := by simp [Unclosed]
  row := by simp [Unclosed]
  cell := by simp [Unclosed]
  paragraph := by simp [Unclosed]

/-- Outcomes one after the other do not close a page when neither does. -/
theorem Unclosed.andThen
    {first : Outcome}
    {next : Session → Outcome}
    (front : Unclosed first.html)
    (back : first.failure = none → Unclosed (next first.session).html) :
    Unclosed (first.andThen next).html := by
  cases complete : first.failure with
  | some error =>
      rw [Outcome.andThen_of_failure complete]
      exact front
  | none =>
      rw [Outcome.andThen_of_complete complete]
      exact front.append (back complete)

/-- A whole does not close a page when its parts do not. -/
theorem compositional_unclosed :
    Compositional (fun before after => Unclosed before ∧ Unclosed after)
      fun _ _ outcome => Unclosed outcome.html where
  framing := framing_unclosed
  done := fun _ => unclosed_nil
  andThen := fun front _ back => front.andThen back
  between := fun framed within =>
    (framed.1.andThen fun _ => within).andThen fun _ => framed.2
  moved := fun _ _ unclosed => unclosed

/-- A code block does not close a page. -/
theorem unclosed_renderCode
    (block : Document.CodeBlock)
    (session : Session) :
    Unclosed (renderCode environment block session).html := by
  rw [renderCode]
  split
  · simp [Unclosed, listing, Outcome.emit]
  · split
    · split <;> simp [Unclosed, listing, Outcome.emit]
    · simp [Unclosed, listing, Outcome.emit]

theorem unclosed_renderQuotation
    (quotation : Document.Quotation)
    (session : Session) :
    Unclosed (renderQuotation quotation session).html := by
  rw [renderQuotation]
  split
  · simp [Unclosed, Outcome.emit]
  · rw [Outcome.andThen_of_complete rfl]
    simp [Unclosed, Outcome.emit]

/-- A directive does not close a page. -/
theorem unclosed_directivePieces
    (hashtag : Document.Hashtag)
    (directive : Directive) :
    Unclosed (directivePieces hashtag directive) := by
  cases directive <;> simp [Unclosed, directivePieces, linkPieces]

theorem unclosed_leaf
    {visit : Visit}
    (leaf : ¬visit.Contains environment) :
    Unclosed (visit.outcome environment).html := by
  obtain ⟨site, block⟩ := visit
  rw [Visit.outcome_mk]
  cases block with
  | heading level children =>
      have invalid : ¬(1 ≤ level ∧ level ≤ 6) := leaf
      rw [renderBlock, if_neg invalid]
      exact unclosed_nil
  | hashtag hashtag =>
      rw [renderBlock]
      rcases renderHashtag_of_not_transcluded (Classical.not_not.mp leaf) with
        ⟨error, after, fails⟩ | ⟨directive, after, _, writes⟩
      · rw [Site.hashtags, fails]
        exact unclosed_nil
      · rw [Site.hashtags, writes]
        exact unclosed_directivePieces hashtag directive
  | codeBlock code =>
      rw [renderBlock]
      exact unclosed_renderCode code site.session
  | quotation quotation =>
      rw [renderBlock]
      exact unclosed_renderQuotation quotation site.session
  | text _ | literal _ | textbox | mention _ | checkbox _ =>
      rw [renderBlock]
      simp [Unclosed, Outcome.emit, Page.textbox, Page.checkbox]
  | _ => exact (leaf trivial).elim

/-- No visit closes a page. -/
theorem Visit.unclosed (visit : Visit) :
    Unclosed (visit.outcome environment).html := by
  induction visit using Visit.induction environment with
  | step visit inductionHypothesis =>
      by_cases contains : visit.Contains environment
      · exact compositional_unclosed.inside contains inductionHypothesis
      · exact unclosed_leaf contains

/-- The head of a page does not close it. -/
theorem unclosed_pageHead (session : Session) :
    Unclosed (pageHead environment session).html := by
  rw [html_pageHead]
  simp [Unclosed, externalStylesheet]

/-! ## Pages -/

namespace Compilation

variable {compilation : Compilation}

/-- A page is the envelope around what its document writes, closed unless something
stopped the document. -/
theorem html_of_opened
    {opened : Session}
    {document : Document}
    (opens : compilation.opened? environment = some (opened, document)) :
    ∃ body : Outcome,
      body = renderParagraphs environment
        (renderHashtag environment compilation.depth compilation.context)
        document (pageHead environment opened).session ∧
      compilation.html environment =
        (pageHead environment opened).html ++ body.html ++
          (match body.failure with
            | some _ => []
            | none => [.closing .body, .closing .html]) ∧
      ((compilation.result environment).1.isOk = true ↔
        body.failure = none) := by
  refine ⟨_, rfl, ?_⟩
  have head := pageHead_complete environment opened
  rw [html, result_of_opened opens, opens]
  dsimp only
  rw [renderEnvelope_eq, Outcome.andThen_of_complete head]
  generalize renderParagraphs environment
    (renderHashtag environment compilation.depth compilation.context) document
    (pageHead environment opened).session = body
  obtain ⟨html, session, failure⟩ := body
  cases failure with
  | none => exact ⟨rfl, fun _ => rfl, fun _ => rfl⟩
  | some error =>
      exact ⟨(List.append_nil _).symm, fun ok => absurd ok Bool.false_ne_true,
        fun complete => absurd complete (Option.some_ne_none _)⟩

/-- A page is whole when its envelope is closed. -/
def IsWhole (environment : Environment) (compilation : Compilation) : Prop :=
  ∃ body, compilation.html environment =
    [.opening .html [], .opening .head [],
      .void .link
        [.fixed "rel" "stylesheet", .given "href" Stylesheet.fileName]] ++
      environment.options.externalStylesheets.map externalStylesheet ++
      [.closing .head, .opening .body []] ++ body ++
      [.closing .body, .closing .html]

/-- A page is whole exactly when its compilation completes. -/
theorem isWhole_iff :
    compilation.IsWhole environment ↔
      (compilation.result environment).1.isOk = true := by
  cases opens : compilation.opened? environment with
  | none =>
      obtain ⟨error, after, _, _, results⟩ := result_of_unopened opens
      have fails : compilation.result environment = (.error error, after) :=
        results compilation.depth
      rw [fails, IsWhole, html, opens]
      constructor
      · rintro ⟨body, same⟩
        simp at same
      · exact fun ok => absurd ok Bool.false_ne_true
  | some found =>
      obtain ⟨opened, document⟩ := found
      obtain ⟨body, rendered, page, complete⟩ := html_of_opened opens
      have unclosed : Unclosed body.html := by
        rw [rendered]
        exact compositional_unclosed.paragraphs
          (Site.ofPage environment compilation.depth compilation.context opened)
          fun visit _ => visit.unclosed
      rw [complete, IsWhole, page]
      constructor
      · rintro ⟨inner, same⟩
        cases stopped : body.failure with
        | none => rfl
        | some error =>
            have front := @unclosed_pageHead environment opened
            have open' := front.append unclosed
            rw [stopped] at same
            dsimp only at same
            rw [List.append_nil] at same
            rw [same] at open'
            exact absurd (by simp) open'
      · intro complete
        rw [complete, html_pageHead]
        exact ⟨body.html, rfl⟩

end Compilation

end Unclosed

end Page
end NotePress
