import NotePress.Proofs.Page.Contents

/-!
# Pages of alike documents

Two documents are alike when they differ only in their texts and in what they
refer to. If both are rendered to the end, and the programs in them end in the
same ways, their pages have the same tags with the same attribute names.
-/

namespace NotePress
namespace Page

open Html (Piece)
open Document (Block)

/-! ## Alike documents -/

/-- Directives of the same kind that bring in no document. -/
inductive AlikeDirectives : Directive → Directive → Prop
  | link
      {leftTarget leftTitle rightTarget rightTitle : String} :
      AlikeDirectives (.link leftTarget leftTitle) (.link rightTarget rightTitle)
  | image
      {left right : String} : AlikeDirectives (.image left) (.image right)
  | other : AlikeDirectives .other .other

mutual

/-- Blocks that differ only in their texts and in what they refer to. Code blocks
may differ in their programs, but not in whether they are run. -/
inductive Alike : Block → Block → Prop
  | text
      {left right : String} : Alike (.text left) (.text right)
  | heading
      {level : Nat}
      {left right : List Block}
      (children : AlikeAll left right) :
      Alike (.heading level left) (.heading level right)
  | styled
      {style : Document.Style}
      {left right : List Block}
      (children : AlikeAll left right) :
      Alike (.styled style left) (.styled style right)
  | literal
      {left right : String} : Alike (.literal left) (.literal right)
  | codeBlock
      {left right : Document.CodeBlock}
      (command : left.command.isEmpty = right.command.isEmpty) :
      Alike (.codeBlock left) (.codeBlock right)
  | checkbox
      {checked : Bool} : Alike (.checkbox checked) (.checkbox checked)
  | textbox : Alike .textbox .textbox
  | quotation
      {left right : Document.Quotation}
      (author : left.author.isSome = right.author.isSome) :
      Alike (.quotation left) (.quotation right)
  | hashtag
      {left right : Document.Hashtag}
      {leftDirective rightDirective : Directive}
      (leftIs : Directive.ofHashtag? left = some leftDirective)
      (rightIs : Directive.ofHashtag? right = some rightDirective)
      (alike : AlikeDirectives leftDirective rightDirective) :
      Alike (.hashtag left) (.hashtag right)
  | mention
      {left right : String} : Alike (.mention left) (.mention right)
  | orderedItem
      {ordinal : Nat}
      {left right : List Block}
      (children : AlikeAll left right) :
      Alike (.orderedItem ordinal left) (.orderedItem ordinal right)
  | unorderedItem
      {left right : List Block}
      (children : AlikeAll left right) :
      Alike (.unorderedItem left) (.unorderedItem right)
  | table
      {left right : List (List (List Block))}
      (rows : AlikeRows left right) : Alike (.table left) (.table right)

/-- Lists of blocks that are alike one by one. -/
inductive AlikeAll : List Block → List Block → Prop
  | nil : AlikeAll [] []
  | cons
      {left right : Block}
      {leftOthers rightOthers : List Block}
      (first : Alike left right)
      (others : AlikeAll leftOthers rightOthers) :
      AlikeAll (left :: leftOthers) (right :: rightOthers)

/-- Cells, or paragraphs, that are alike one by one. -/
inductive AlikeGroups : List (List Block) → List (List Block) → Prop
  | nil : AlikeGroups [] []
  | cons
      {left right : List Block}
      {leftOthers rightOthers : List (List Block)}
      (first : AlikeAll left right)
      (others : AlikeGroups leftOthers rightOthers) :
      AlikeGroups (left :: leftOthers) (right :: rightOthers)

/-- Rows that are alike one by one. -/
inductive AlikeRows :
    List (List (List Block)) → List (List (List Block)) → Prop
  | nil : AlikeRows [] []
  | cons
      {left right : List (List Block)}
      {leftOthers rightOthers : List (List (List Block))}
      (first : AlikeGroups left right)
      (others : AlikeRows leftOthers rightOthers) :
      AlikeRows (left :: leftOthers) (right :: rightOthers)

end

/-! ## Matching outcomes -/

/-- Two outcomes with the same tags, provided that both came to their end and the
programs in both ended in the same ways. How the programs ended is read from lists
that go on with those of later outcomes. -/
def Matches
    (left right : Outcome)
    (leftCarried rightCarried : List Carried) : Prop :=
  left.failure = none → right.failure = none →
  ∀ leftRest rightRest,
    answersIn leftCarried ++ leftRest = answersIn rightCarried ++ rightRest →
    left.html.flatMap Piece.shapes = right.html.flatMap Piece.shapes ∧
      leftRest = rightRest

/-- What completes has completed its parts. -/
theorem complete_of_andThen
    {first : Outcome}
    {next : Session → Outcome}
    (complete : (first.andThen next).failure = none) :
    first.failure = none ∧ (next first.session).failure = none := by
  unfold Outcome.andThen at complete
  split at complete
  next error failure =>
    rw [failure] at complete
    cases complete
  next whole => exact ⟨whole, complete⟩

/-- Pieces of the same shapes, without results of programs. -/
theorem Matches.emit
    {leftPieces rightPieces : List Piece}
    {leftCarried rightCarried : List Carried}
    (same : leftPieces.flatMap Piece.shapes = rightPieces.flatMap Piece.shapes)
    (leftAnswers : answersIn leftCarried = [])
    (rightAnswers : answersIn rightCarried = [])
    (leftSession rightSession : Session) :
    Matches (.emit leftPieces leftSession) (.emit rightPieces rightSession)
      leftCarried rightCarried := by
  intro _ _ leftRest rightRest answers
  rw [leftAnswers, rightAnswers] at answers
  exact ⟨same, answers⟩

/-- Matching outcomes one after the other match. -/
theorem Matches.andThen
    {left right : Outcome}
    {leftNext rightNext : Session → Outcome}
    {leftHere rightHere : List Carried}
    {leftLater rightLater : Session → List Carried}
    (front : Matches left right leftHere rightHere)
    (back : ∀ leftSession rightSession,
      Matches (leftNext leftSession) (rightNext rightSession)
        (leftLater leftSession) (rightLater rightSession)) :
    Matches (left.andThen leftNext) (right.andThen rightNext)
      (carriedThen left leftHere leftLater)
      (carriedThen right rightHere rightLater) := by
  intro leftComplete rightComplete leftRest rightRest answers
  obtain ⟨leftFirst, leftSecond⟩ := complete_of_andThen leftComplete
  obtain ⟨rightFirst, rightSecond⟩ := complete_of_andThen rightComplete
  rw [carriedThen, carriedThen, leftFirst, rightFirst, answersIn, answersIn,
    List.filterMap_append, List.filterMap_append, List.append_assoc,
    List.append_assoc] at answers
  obtain ⟨sameFront, later⟩ := front leftFirst rightFirst _ _ answers
  obtain ⟨sameBack, rest⟩ := back _ _ leftSecond rightSecond _ _ later
  refine ⟨?_, rest⟩
  rw [Outcome.andThen_of_complete leftFirst,
    Outcome.andThen_of_complete rightFirst, List.flatMap_append,
    List.flatMap_append, sameFront, sameBack]

/-- Content between tags of the same shapes. -/
theorem Matches.wrapped
    {leftBefore rightBefore after : List Piece}
    {closing : List Carried}
    {leftInside rightInside : Session → Outcome}
    {leftCarried rightCarried : Session → List Carried}
    (same : leftBefore.flatMap Piece.shapes =
      rightBefore.flatMap Piece.shapes)
    (silent : answersIn closing = [])
    (within : ∀ leftSession rightSession,
      Matches (leftInside leftSession) (rightInside rightSession)
        (leftCarried leftSession) (rightCarried rightSession))
    (leftSession rightSession : Session) :
    Matches (wrapped leftBefore after leftInside leftSession)
      (wrapped rightBefore after rightInside rightSession)
      (carriedBetween leftBefore closing leftInside leftCarried leftSession)
      (carriedBetween rightBefore closing rightInside rightCarried
        rightSession) := by
  have tags : ∀ pieces : List Piece,
      answersIn (pieces.map fun _ => Carried.tag []) = [] := by
    intro pieces
    rw [answersIn, List.filterMap_eq_nil_iff]
    intro carried member
    obtain ⟨_, _, rfl⟩ := List.mem_map.mp member
    rfl
  exact ((Matches.emit same (tags _) (tags _) leftSession
    rightSession).andThen within).andThen (Matches.emit rfl silent silent)

/-! ## Pages of alike documents -/

/-- Alike hashtags that bring in no document match. -/
theorem matches_writeLocal
    {left right : Document.Hashtag}
    {leftDirective rightDirective : Directive}
    (leftIs : Directive.ofHashtag? left = some leftDirective)
    (rightIs : Directive.ofHashtag? right = some rightDirective)
    (alike : AlikeDirectives leftDirective rightDirective)
    (leftSession rightSession : Session) :
    Matches (writeLocal left leftSession) (writeLocal right rightSession)
      (carriedByHashtag left) (carriedByHashtag right) := by
  rw [writeLocal, writeLocal, carriedByHashtag, carriedByHashtag, leftIs,
    rightIs]
  cases alike with
  | link => exact Matches.emit rfl rfl rfl leftSession rightSession
  | image => exact Matches.emit rfl rfl rfl leftSession rightSession
  | other => exact Matches.emit rfl rfl rfl leftSession rightSession

/-- Quotations match when both have an author or neither has. -/
theorem matches_renderQuotation
    {left right : Document.Quotation}
    (author : left.author.isSome = right.author.isSome)
    (leftSession rightSession : Session) :
    Matches (renderQuotation left leftSession)
      (renderQuotation right rightSession)
      (carriedByQuotation left) (carriedByQuotation right) := by
  obtain ⟨leftText, leftAuthor⟩ := left
  obtain ⟨rightText, rightAuthor⟩ := right
  cases leftAuthor with
  | none =>
      cases rightAuthor with
      | none => exact Matches.emit rfl rfl rfl leftSession rightSession
      | some name => cases author
  | some leftName =>
      cases rightAuthor with
      | none => cases author
      | some rightName =>
          intro _ _ leftRest rightRest answers
          exact ⟨rfl, answers⟩

section Blocks

variable
  {leftEnvironment rightEnvironment : Environment}
  {leftHashtags rightHashtags : Document.Hashtag → Session → Outcome}

/-- The attributes of a listing, given how the program in it ended. -/
def listingAttributes : Option Bool → List Html.Attribute
  | some false => [.fixed "class" "code-error"]
  | _ => []

/-- A code block writes a listing whose attributes tell how its program ended. -/
theorem renderCode_eq_listing
    (environment : Environment)
    (block : Document.CodeBlock)
    (session : Session) :
    ∃ content after,
      renderCode environment block session =
        .emit (listing
          (listingAttributes (codeResult environment block session).answer?)
          content) after ∧
      content.shapes = [] ∧
      (codeResult environment block session).answer?.isNone =
        block.command.isEmpty := by
  rw [renderCode, codeResult]
  split
  next bare => exact ⟨_, _, rfl, rfl, bare.symm⟩
  next run =>
    rw [Bool.not_eq_true] at run
    split
    next output after ran =>
      rw [ran]
      split
      · exact ⟨_, _, rfl, rfl, run.symm⟩
      · exact ⟨_, _, rfl, rfl, run.symm⟩
    next error after ran =>
      rw [ran]
      exact ⟨_, _, rfl, rfl, run.symm⟩

/-- A listing carries how its program ended. -/
theorem answersIn_listing (result : Carried) :
    answersIn [.tag [], .tag [], result, .tag [], .tag []] =
      result.answer?.toList := by
  cases result <;> rfl

/-- Two code blocks, both run or both shown as they are. -/
theorem matches_renderCode
    {left right : Document.CodeBlock}
    (command : left.command.isEmpty = right.command.isEmpty)
    (leftSession rightSession : Session) :
    Matches (renderCode leftEnvironment left leftSession)
      (renderCode rightEnvironment right rightSession)
      [.tag [], .tag [], codeResult leftEnvironment left leftSession, .tag [],
        .tag []]
      [.tag [], .tag [], codeResult rightEnvironment right rightSession,
        .tag [], .tag []] := by
  obtain ⟨leftContent, leftAfter, leftWrites, leftText, leftRuns⟩ :=
    renderCode_eq_listing leftEnvironment left leftSession
  obtain ⟨rightContent, rightAfter, rightWrites, rightText, rightRuns⟩ :=
    renderCode_eq_listing rightEnvironment right rightSession
  intro _ _ leftRest rightRest answers
  rw [answersIn_listing, answersIn_listing] at answers
  -- Both programs ran or neither did, so each list of endings starts with as many.
  have sameLength :
      (codeResult leftEnvironment left leftSession).answer?.toList.length =
        (codeResult rightEnvironment right rightSession).answer?.toList.length := by
    rw [← leftRuns, ← rightRuns] at command
    revert command
    cases (codeResult leftEnvironment left leftSession).answer? <;>
      cases (codeResult rightEnvironment right rightSession).answer? <;>
      simp
  obtain ⟨sameEnding, rest⟩ := List.append_inj answers sameLength
  have sameAnswer := congrArg List.head? sameEnding
  rw [Option.head?_toList, Option.head?_toList] at sameAnswer
  refine ⟨?_, rest⟩
  rw [leftWrites, rightWrites, sameAnswer]
  simp only [Outcome.emit, listing, List.flatMap_cons, leftText, rightText]

mutual

/-- Alike blocks match. The induction is on how they are alike. -/
theorem matches_renderBlock
    {left right : Block}
    (alike : Alike left right)
    (leftWrites : WritesLocally leftHashtags (hashtagsInBlock left))
    (rightWrites : WritesLocally rightHashtags (hashtagsInBlock right))
    (leftSession rightSession : Session) :
    Matches (renderBlock leftEnvironment leftHashtags left leftSession)
      (renderBlock rightEnvironment rightHashtags right rightSession)
      (carriedByBlock leftEnvironment leftHashtags left leftSession)
      (carriedByBlock rightEnvironment rightHashtags right rightSession) := by
  rw [renderBlock.eq_def, renderBlock.eq_def, carriedByBlock.eq_def,
    carriedByBlock.eq_def]
  match alike with
  | .text => exact Matches.emit rfl rfl rfl leftSession rightSession
  | .heading children =>
      dsimp only
      split
      · exact Matches.wrapped rfl rfl
          (matches_renderBlocks children leftWrites rightWrites) leftSession
          rightSession
      · intro complete
        cases complete
  | .styled children =>
      exact Matches.wrapped rfl rfl
        (matches_renderBlocks children leftWrites rightWrites) leftSession
        rightSession
  | .literal => exact Matches.emit rfl rfl rfl leftSession rightSession
  | .codeBlock command =>
      exact matches_renderCode command leftSession rightSession
  | .checkbox => exact Matches.emit rfl rfl rfl leftSession rightSession
  | .textbox => exact Matches.emit rfl rfl rfl leftSession rightSession
  | .quotation author =>
      exact matches_renderQuotation author leftSession rightSession
  | .hashtag leftIs rightIs directives =>
      dsimp only
      rw [leftWrites.2 _ List.mem_cons_self, rightWrites.2 _ List.mem_cons_self]
      exact matches_writeLocal leftIs rightIs directives leftSession
        rightSession
  | .mention => exact Matches.emit rfl rfl rfl leftSession rightSession
  | .orderedItem children =>
      exact Matches.wrapped rfl rfl
        (matches_renderBlocks children leftWrites rightWrites) leftSession
        rightSession
  | .unorderedItem children =>
      exact Matches.wrapped rfl rfl
        (matches_renderBlocks children leftWrites rightWrites) leftSession
        rightSession
  | .table rows =>
      exact Matches.wrapped rfl rfl
        (matches_renderRows rows leftWrites rightWrites) leftSession
        rightSession

/-- Blocks that are alike one by one match. -/
theorem matches_renderBlocks
    {left right : List Block}
    (alike : AlikeAll left right)
    (leftWrites : WritesLocally leftHashtags (hashtagsInBlocks left))
    (rightWrites : WritesLocally rightHashtags (hashtagsInBlocks right))
    (leftSession rightSession : Session) :
    Matches (renderBlocks leftEnvironment leftHashtags left leftSession)
      (renderBlocks rightEnvironment rightHashtags right rightSession)
      (carriedByBlocks leftEnvironment leftHashtags left leftSession)
      (carriedByBlocks rightEnvironment rightHashtags right rightSession) := by
  match alike with
  | .nil =>
      rw [renderBlocks, renderBlocks, carriedByBlocks, carriedByBlocks]
      exact fun _ _ leftRest rightRest answers => ⟨rfl, answers⟩
  | .cons first others =>
      rw [renderBlocks, renderBlocks, carriedByBlocks, carriedByBlocks]
      exact (matches_renderBlock first leftWrites.append.1
        rightWrites.append.1 leftSession rightSession).andThen
        (matches_renderBlocks others leftWrites.append.2 rightWrites.append.2)

/-- Rows that are alike one by one match. -/
theorem matches_renderRows
    {left right : List (List (List Block))}
    (alike : AlikeRows left right)
    (leftWrites : WritesLocally leftHashtags (hashtagsInRows left))
    (rightWrites : WritesLocally rightHashtags (hashtagsInRows right))
    (leftSession rightSession : Session) :
    Matches (renderRows leftEnvironment leftHashtags left leftSession)
      (renderRows rightEnvironment rightHashtags right rightSession)
      (carriedByRows leftEnvironment leftHashtags left leftSession)
      (carriedByRows rightEnvironment rightHashtags right rightSession) := by
  match alike with
  | .nil =>
      rw [renderRows, renderRows, carriedByRows, carriedByRows]
      exact fun _ _ leftRest rightRest answers => ⟨rfl, answers⟩
  | .cons first others =>
      rw [renderRows, renderRows, carriedByRows, carriedByRows]
      exact (Matches.wrapped rfl rfl (matches_renderCells first
        leftWrites.append.1 rightWrites.append.1) leftSession
        rightSession).andThen
        (matches_renderRows others leftWrites.append.2 rightWrites.append.2)

/-- Cells that are alike one by one match. -/
theorem matches_renderCells
    {left right : List (List Block)}
    (alike : AlikeGroups left right)
    (leftWrites : WritesLocally leftHashtags (hashtagsInGroups left))
    (rightWrites : WritesLocally rightHashtags (hashtagsInGroups right))
    (leftSession rightSession : Session) :
    Matches (renderCells leftEnvironment leftHashtags left leftSession)
      (renderCells rightEnvironment rightHashtags right rightSession)
      (carriedByCells leftEnvironment leftHashtags left leftSession)
      (carriedByCells rightEnvironment rightHashtags right rightSession) := by
  match alike with
  | .nil =>
      rw [renderCells, renderCells, carriedByCells, carriedByCells]
      exact fun _ _ leftRest rightRest answers => ⟨rfl, answers⟩
  | .cons first others =>
      rw [renderCells, renderCells, carriedByCells, carriedByCells]
      exact (Matches.wrapped rfl rfl (matches_renderBlocks first
        leftWrites.append.1 rightWrites.append.1) leftSession
        rightSession).andThen
        (matches_renderCells others leftWrites.append.2 rightWrites.append.2)

end

/-- Alike documents match. -/
theorem matches_renderParagraphs
    {left right : Document}
    (alike : AlikeGroups left right)
    (leftWrites : WritesLocally leftHashtags (hashtagsInGroups left))
    (rightWrites : WritesLocally rightHashtags (hashtagsInGroups right))
    (leftSession rightSession : Session) :
    Matches (renderParagraphs leftEnvironment leftHashtags left leftSession)
      (renderParagraphs rightEnvironment rightHashtags right rightSession)
      (carriedByParagraphs leftEnvironment leftHashtags left leftSession)
      (carriedByParagraphs rightEnvironment rightHashtags right
        rightSession) := by
  induction left generalizing right leftSession rightSession with
  | nil =>
      cases alike
      rw [renderParagraphs, renderParagraphs, carriedByParagraphs,
        carriedByParagraphs]
      exact fun _ _ leftRest rightRest answers => ⟨rfl, answers⟩
  | cons paragraph paragraphs inductionHypothesis =>
      cases alike with
      | cons first others =>
          rw [renderParagraphs, renderParagraphs, carriedByParagraphs,
            carriedByParagraphs]
          refine Matches.andThen ?_ (inductionHypothesis others
            leftWrites.append.2 rightWrites.append.2)
          rw [renderParagraph, renderParagraph, carriedByParagraph,
            carriedByParagraph]
          cases first with
          | nil => exact fun _ _ leftRest rightRest answers => ⟨rfl, answers⟩
          | cons block rest =>
              exact Matches.wrapped rfl rfl (matches_renderBlocks
                (.cons block rest) leftWrites.append.1 rightWrites.append.1)
                leftSession rightSession

end Blocks

/-! ## Renders of local documents -/

/-- A render, with escaped output of programs, of a document whose hashtags bring
in no document and make no further page. -/
structure LocalRender where
  environment : Environment
  context : Context
  document : Document
  session : Session
  escaped : environment.options.escapeCodeOutput = true
  isLocal : AreLocal (hashtagsInGroups document)

namespace LocalRender

variable (render : LocalRender)

/-- How the hashtags of the document are written. -/
def hashtags : Document.Hashtag → Session → Outcome :=
  renderHashtag render.environment (depthBound render.session.disk)
    render.context

/-- What comes of the render. -/
def outcome : Outcome :=
  renderDocument render.environment render.context render.document
    render.session

/-- The written page. -/
def page : String :=
  Html.print render.outcome.html

/-- What the document carries. -/
def carried : List Carried :=
  carriedByParagraphs render.environment render.hashtags render.document
    render.session

theorem legible : ∀ piece ∈ render.outcome.html, piece.Legible :=
  (nests_renderDocument render.escaped render.context render.document
    render.session).legible

theorem depthBound_pos (disk : Disk) : 0 < depthBound disk := by
  rw [depthBound]
  positivity

theorem writesLocally :
    WritesLocally render.hashtags (hashtagsInGroups render.document) := by
  refine ⟨render.isLocal, ?_⟩
  intro hashtag member session
  obtain ⟨depth, deep⟩ := Nat.exists_eq_succ_of_ne_zero
    (Nat.ne_of_gt (depthBound_pos render.session.disk))
  rw [hashtags, deep]
  exact renderHashtag_of_local (render.isLocal hashtag member)
    render.environment depth render.context session

/-- The texts and references that are read back from the page are those that the
document carries. -/
theorem glimpses_page :
    Html.glimpses? render.page =
      some (render.carried.flatMap Carried.glimpses) := by
  rw [page, Html.glimpses_print render.legible]
  exact congrArg some (gives_renderParagraphs render.document
    render.writesLocally render.session)

end LocalRender

/-- The page of a local document carries the texts and references of its blocks and
no others. An alike document, if the programs in both end in the same ways, has the
same tags with the same attribute names in its page. -/
theorem no_markup_injection (render : LocalRender) :
    Html.glimpses? render.page =
      some (render.carried.flatMap Carried.glimpses) ∧
    ∀ other : LocalRender, AlikeGroups render.document other.document →
      render.outcome.failure = none → other.outcome.failure = none →
      answersIn render.carried = answersIn other.carried →
      ∃ shapes, Html.tagShapes? render.page = some shapes ∧
        Html.tagShapes? other.page = some shapes := by
  refine ⟨render.glimpses_page, ?_⟩
  intro other alike complete otherComplete answers
  have same := (matches_renderParagraphs alike render.writesLocally
    other.writesLocally render.session other.session complete otherComplete
    [] [] (by rw [List.append_nil, List.append_nil]; exact answers)).1
  refine ⟨_, Html.tagShapes_print render.legible, ?_⟩
  rw [LocalRender.page, Html.tagShapes_print other.legible]
  exact congrArg some same.symm

/-- A title with brackets and a program that prints a closing tag. -/
theorem no_markup_injection_brackets :
    let document (title : String) : Document :=
      [[.hashtag ⟨"Link", ["there", title]⟩, .codeBlock ⟨"sh", ["run"]⟩]]
    let render (title output : String)
        (isLocal : AreLocal (hashtagsInGroups (document title))) :
        LocalRender :=
      ⟨⟨{}, fun disk _ _ => (.ok output, disk)⟩, ⟨⟨"/notes"⟩, []⟩,
        document title, { disk := default }, rfl, isLocal⟩
    let plain := render "title" "output" (by decide)
    let marked := render "<b>&\"" "</code>" (by decide)
    AlikeGroups plain.document marked.document ∧
      plain.outcome.failure = none ∧ marked.outcome.failure = none ∧
      answersIn plain.carried = answersIn marked.carried ∧
      ∃ shapes, Html.tagShapes? plain.page = some shapes ∧
        Html.tagShapes? marked.page = some shapes := by
  intro document render plain marked
  have alike : AlikeGroups plain.document marked.document :=
    .cons (.cons (.hashtag rfl rfl .link) (.cons (.codeBlock rfl) .nil)) .nil
  have answers : answersIn plain.carried = [true] := rfl
  have markedAnswers : answersIn marked.carried = [true] := rfl
  have same := answers.trans markedAnswers.symm
  exact ⟨alike, rfl, rfl, same,
    (no_markup_injection plain).2 marked alike rfl rfl same⟩

end Page
end NotePress
