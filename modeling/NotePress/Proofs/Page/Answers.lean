import NotePress.Proofs.Page.Independence
import NotePress.Proofs.Page.Twins

/-!
# Code does not steer a run

Code that runs answers what it printed or why it did not run. Two runs with different
answers, from twin sessions, take the same course as long as code leaves disks alone:
they meet the same code in the same order, start the same compilations, and are stopped
by the same errors. What they write is the same but for the listings of the answers.
-/

namespace NotePress
namespace Page

open Html (Piece)
open Document (Block)

/-- The listing of what came of running code. -/
def answerListing
    (options : Options) : Except ExecutionError String → List Piece
  | .ok output =>
      listing [] (if options.escapeCodeOutput then .text output else .raw output)
  | .error error => listing [.fixed "class" "code-error"] (.text error.message)

/-- Pieces that are the same in two runs but for the listings of what came of running
code, each at its place. -/
inductive SameButAnswers
    (left right : Environment) :
    List CodeCall → List Piece → List Piece → Prop
  | done : SameButAnswers left right [] [] []
  | piece
      {calls : List CodeCall}
      {leftHtml rightHtml : List Piece}
      (piece : Piece)
      (others : SameButAnswers left right calls leftHtml rightHtml) :
      SameButAnswers left right calls (piece :: leftHtml) (piece :: rightHtml)
  | answer
      {calls : List CodeCall}
      {leftHtml rightHtml : List Piece}
      (leftDisk rightDisk : Disk)
      (index : Nat)
      (call : CodeCall)
      (others : SameButAnswers left right calls leftHtml rightHtml) :
      SameButAnswers left right (call :: calls)
        (answerListing left.options (left.machine leftDisk index call).1 ++ leftHtml)
        (answerListing right.options (right.machine rightDisk index call).1 ++
          rightHtml)

/-- Compilations of one document that open their pages both or not at all, and write
the same into them but for the answers to the code in the page. -/
structure Compilation.SamePage
    (leftEnvironment rightEnvironment : Environment)
    (left right : Compilation) : Prop where
  source : left.source = right.source
  opened : (left.opened? leftEnvironment).isSome =
    (right.opened? rightEnvironment).isSome
  html : SameButAnswers leftEnvironment rightEnvironment
    (callsMet leftEnvironment false (left.visits leftEnvironment))
    (left.html leftEnvironment) (right.html rightEnvironment)

/-- Sessions of two runs from which documents are rendered alike. -/
structure Session.SideBySide
    (options : Options)
    (disk : Disk)
    (left right : Session) : Prop where
  shows : left.Shows disk
  twins : left.Twins (MayShowCode options disk) right

/-- Visits of one block at the same place in two runs. -/
structure Visit.SideBySide
    (options : Options)
    (disk : Disk)
    (left right : Visit) : Prop where
  block : left.block = right.block
  depth : left.depth = right.depth
  context : left.context = right.context
  session : left.session.SideBySide options disk right.session

/-- What two runs have in common in a stretch, whatever the answers to code are. -/
structure SameCourse
    (leftEnvironment rightEnvironment : Environment)
    (disk : Disk)
    (leftVisits rightVisits : List Visit)
    (left right : Outcome) : Prop where
  failure : left.failure = right.failure
  sideBySide : left.session.SideBySide leftEnvironment.options disk right.session
  html : SameButAnswers leftEnvironment rightEnvironment
    (callsMet leftEnvironment false leftVisits) left.html right.html
  started : List.Forall₂
    (Compilation.SamePage leftEnvironment rightEnvironment)
    (leftVisits.flatMap (Visit.started leftEnvironment))
    (rightVisits.flatMap (Visit.started rightEnvironment))

section Pieces

variable {left right : Environment}

theorem sameButAnswers_refl (pieces : List Piece) :
    SameButAnswers left right [] pieces pieces := by
  induction pieces with
  | nil => exact .done
  | cons first others inductionHypothesis => exact .piece first inductionHypothesis

theorem SameButAnswers.append
    {calls later : List CodeCall}
    {leftHtml rightHtml leftLater rightLater : List Piece}
    (front : SameButAnswers left right calls leftHtml rightHtml)
    (back : SameButAnswers left right later leftLater rightLater) :
    SameButAnswers left right (calls ++ later) (leftHtml ++ leftLater)
      (rightHtml ++ rightLater) := by
  induction front with
  | done => exact back
  | piece piece _ inductionHypothesis => exact .piece piece inductionHypothesis
  | answer leftDisk rightDisk index call _ inductionHypothesis =>
      rw [List.append_assoc, List.append_assoc]
      exact .answer leftDisk rightDisk index call inductionHypothesis

/-- A code block with a command is written as the listing of its answer. -/
theorem renderCode_of_command
    {environment : Environment}
    {block : Document.CodeBlock}
    (command : block.command.isEmpty = false)
    (session : Session) :
    let ran := runCode environment ⟨block.command, block.code⟩ session
    renderCode environment block session =
      .emit (answerListing environment.options ran.1) ran.2 := by
  rw [renderCode, if_neg (Bool.eq_false_iff.mp command)]
  dsimp only
  generalize runCode environment ⟨block.command, block.code⟩ session = ran
  obtain ⟨answer, after⟩ := ran
  cases answer with
  | error error => rfl
  | ok output =>
      dsimp only [answerListing]
      split <;> rfl

end Pieces

section Courses

variable
  {leftEnvironment rightEnvironment : Environment}
  {disk : Disk}

/-- A stretch that only writes. -/
theorem SameCourse.alone
    {left right : Outcome}
    (failure : left.failure = right.failure)
    (sideBySide : left.session.SideBySide leftEnvironment.options disk right.session)
    (html : SameButAnswers leftEnvironment rightEnvironment [] left.html right.html) :
    SameCourse leftEnvironment rightEnvironment disk [] [] left right :=
  ⟨failure, sideBySide, html, .nil⟩

/-- Sessions stay side by side whatever pieces are written. -/
theorem Session.SideBySide.writeUnits
    {options : Options}
    {left right : Session}
    (sideBySide : left.SideBySide options disk right)
    (leftPieces rightPieces : List Piece) :
    (left.writeUnits (Html.units leftPieces)).SideBySide options disk
      (right.writeUnits (Html.units rightPieces)) := by
  refine ⟨?_, sideBySide.twins.writeUnits sideBySide.shows.hides _ _⟩
  obtain ⟨⟨owner, tidy⟩, before⟩ := sideBySide.shows
  obtain ⟨later, grows, _⟩ := tidy.writeUnits leftPieces
  refine ⟨⟨owner, later⟩, before.trans (grows.mono ?_)⟩
  rintro location ⟨source, owns, rfl⟩
  exact (tidy.writes source owns).isDocument.isOutput_page

theorem lockstep_sameCourse :
    Lockstep (Session.SideBySide leftEnvironment.options disk)
      (SameCourse leftEnvironment rightEnvironment disk) where
  done := fun start => .alone rfl start .done
  emit := fun pieces start =>
    .alone rfl (start.writeUnits pieces pieces) (sameButAnswers_refl pieces)
  andThen := by
    intro leftVisits rightVisits leftLater rightLater left right leftNext rightNext
      front leftStopped rightStopped back
    have failure := front.failure
    cases failed : left.failure with
    | some error =>
        rw [failed] at failure
        rw [leftStopped error failed, rightStopped error failure.symm,
          List.append_nil, List.append_nil, Outcome.andThen_of_failure failed,
          Outcome.andThen_of_failure failure.symm]
        exact front
    | none =>
        rw [failed] at failure
        rw [Outcome.andThen_of_complete failed,
          Outcome.andThen_of_complete failure.symm]
        have later := back front.sideBySide failed failure.symm
        refine ⟨later.failure, later.sideBySide, ?_, ?_⟩
        · rw [callsMet_append]
          exact front.html.append later.html
        · rw [List.flatMap_append, List.flatMap_append]
          exact List.rel_append front.started later.started

/-! ## Visits -/

/-- A visit that runs no code itself and starts no compilation takes the course of the
visits inside it. -/
theorem SameCourse.single
    {leftVisit rightVisit : Visit}
    {left right : Outcome}
    (noCall : leftVisit.call? = none)
    (leftStarts : leftVisit.starts? = none)
    (rightStarts : rightVisit.starts? = none)
    (course : SameCourse leftEnvironment rightEnvironment disk
      (leftVisit.inside leftEnvironment) (rightVisit.inside rightEnvironment)
      left right) :
    SameCourse leftEnvironment rightEnvironment disk [leftVisit] [rightVisit] left
      right := by
  refine ⟨course.failure, course.sideBySide, ?_, ?_⟩
  · rw [callsMet_singleton, noCall, leftStarts]
    exact course.html
  · rw [List.flatMap_singleton, List.flatMap_singleton, Visit.started_eq,
      Visit.started_eq, leftStarts, rightStarts]
    exact course.started

section Alone

variable
  (leftAlone : LeavesAlone leftEnvironment.machine)
  (rightAlone : LeavesAlone rightEnvironment.machine)

include leftAlone rightAlone

theorem Session.SideBySide.runCode
    {options : Options}
    {left right : Session}
    (sideBySide : left.SideBySide options disk right)
    (call : CodeCall) :
    (Page.runCode leftEnvironment call left).2.SideBySide options disk
      (Page.runCode rightEnvironment call right).2 :=
  ⟨Runs.shows leftAlone (.run left call) sideBySide.shows (List.forall_mem_nil _)
      (List.forall_mem_nil _),
    sideBySide.twins.runCode leftAlone rightAlone call⟩

/-- Code blocks run the same code, and differ in the listings of the answers. -/
theorem sameCourse_renderCode
    {left right : Visit}
    (sideBySide : left.SideBySide leftEnvironment.options disk right)
    {code : Document.CodeBlock}
    (block : left.block = .codeBlock code) :
    SameCourse leftEnvironment rightEnvironment disk [left] [right]
      (renderCode leftEnvironment code left.session)
      (renderCode rightEnvironment code right.session) := by
  obtain ⟨left, _⟩ := left
  obtain ⟨right, _⟩ := right
  have same := sideBySide.block
  obtain rfl := block
  obtain rfl := same
  have start := sideBySide.session
  cases command : code.command.isEmpty with
  | true =>
      rw [renderCode, renderCode, if_pos command, if_pos command]
      refine .single ?_ rfl rfl (lockstep_sameCourse.emit _ start)
      rw [Visit.call?]
      exact if_pos command
  | false =>
      rw [renderCode_of_command command, renderCode_of_command command]
      dsimp only
      have ran := start.runCode leftAlone rightAlone ⟨code.command, code.code⟩
      have answered := SameButAnswers.answer left.session.disk right.session.disk
        left.session.calls.length ⟨code.command, code.code⟩
        (@SameButAnswers.done leftEnvironment rightEnvironment)
      rw [List.append_nil, List.append_nil] at answered
      refine ⟨rfl, ran.writeUnits _ _, ?_, ?_⟩
      · have call : (Visit.mk left (.codeBlock code)).call? =
            some ⟨code.command, code.code⟩ :=
          if_neg (Bool.eq_false_iff.mp command)
        rw [callsMet_singleton, call, Outcome.emit, Outcome.emit, Page.runCode,
          Page.runCode, ← start.twins.calls]
        exact answered
      · rw [List.flatMap_singleton, List.flatMap_singleton, Visit.started_eq,
          Visit.started_eq]
        exact .nil

/-- Blocks that are neither containers nor hashtags. -/
theorem sameCourse_leaf
    {left right : Visit}
    (sideBySide : left.SideBySide leftEnvironment.options disk right)
    (leaf : ¬left.Contains leftEnvironment)
    (noHashtag : ∀ hashtag, left.block ≠ .hashtag hashtag) :
    SameCourse leftEnvironment rightEnvironment disk [left] [right]
      (left.outcome leftEnvironment) (right.outcome rightEnvironment) := by
  have start := sideBySide.session
  by_cases isCode : ∃ code, left.block = .codeBlock code
  · obtain ⟨code, block⟩ := isCode
    have course := sameCourse_renderCode leftAlone rightAlone sideBySide block
    rw [Visit.outcome, Visit.outcome, ← sideBySide.block, block, renderBlock,
      renderBlock]
    exact course
  obtain ⟨left, block⟩ := left
  obtain ⟨right, other⟩ := right
  obtain rfl : block = other := sideBySide.block
  rw [Visit.outcome, Visit.outcome]
  cases block with
  | hashtag hashtag => exact absurd rfl (noHashtag hashtag)
  | codeBlock code => exact absurd ⟨code, rfl⟩ isCode
  | heading level children =>
      have invalid : ¬(1 ≤ level ∧ level ≤ 6) := leaf
      rw [renderBlock, renderBlock, if_neg invalid, if_neg invalid]
      refine .single rfl rfl rfl ?_
      rw [Visit.inside_invalidHeading invalid, Visit.inside_invalidHeading invalid]
      exact .alone rfl start .done
  | quotation quotation =>
      rw [renderBlock, renderBlock]
      exact .single rfl rfl rfl (lockstep_sameCourse.quotation quotation start)
  | text _ | literal _ | textbox | mention _ | checkbox _ =>
      rw [renderBlock, renderBlock]
      exact .single rfl rfl rfl (lockstep_sameCourse.emit _ start)
  | styled _ _ | orderedItem _ _ | unorderedItem _ | table _ =>
      exact (leaf trivial).elim

end Alone

/-! ## Compilations -/

section Options

variable (options : leftEnvironment.options = rightEnvironment.options)

include options

/-- What two compilations of one document answer and leave behind. -/
structure Compilation.SameResult
    (leftEnvironment rightEnvironment : Environment)
    (disk : Disk)
    (left right : Compilation) : Prop where
  answer : (left.result leftEnvironment).1 = (right.result rightEnvironment).1
  twins : (left.result leftEnvironment).2.Twins
    (MayShowCode leftEnvironment.options disk) (right.result rightEnvironment).2
  started : List.Forall₂
    (Compilation.SamePage leftEnvironment rightEnvironment)
    (left.started leftEnvironment) (right.started rightEnvironment)

/-- Compilations of one document come to the same when the visits in its page do. -/
theorem Compilation.sameResult
    {left right : Compilation}
    (twins : left.Twins (MayShowCode leftEnvironment.options disk) right)
    (shows : left.session.Shows disk)
    (met : left.IsMet)
    (parts : InStep (Session.SideBySide leftEnvironment.options disk)
      (SameCourse leftEnvironment rightEnvironment disk)
      leftEnvironment rightEnvironment (left.visits leftEnvironment)
      (right.visits rightEnvironment)) :
    left.SameResult leftEnvironment rightEnvironment disk right := by
  cases twins.opensAlike options shows met with
  | @refused error leftAfter rightAfter leftUnopened rightUnopened leftFails rightFails
      after =>
      refine ⟨?_, ?_, ?_⟩
      · rw [leftFails, rightFails]
      · rw [leftFails, rightFails]
        exact after
      · rw [started, started, visits, visits, leftUnopened, rightUnopened]
        refine .cons ⟨twins.source, ?_, ?_⟩ .nil
        · rw [leftUnopened, rightUnopened]
        · rw [visits, html, html, leftUnopened, rightUnopened]
          exact .done
  | @opened document leftOpened rightOpened leftOpens rightOpens opened =>
      have leftVisits : left.visits leftEnvironment =
          (Site.ofPage leftEnvironment left.depth left.context leftOpened).paragraphs
            leftEnvironment document := by
        rw [visits, leftOpens]
      have rightVisits : right.visits rightEnvironment =
          (Site.ofPage rightEnvironment right.depth right.context
            rightOpened).paragraphs rightEnvironment document := by
        rw [visits, rightOpens]
      have start : leftOpened.SideBySide leftEnvironment.options disk rightOpened :=
        ⟨Compilation.shows_opened shows met leftOpens, opened⟩
      have envelope : SameCourse leftEnvironment rightEnvironment disk
          (left.visits leftEnvironment) (right.visits rightEnvironment)
          (renderEnvelope leftEnvironment
            (renderHashtag leftEnvironment left.depth left.context) document leftOpened)
          (renderEnvelope rightEnvironment
            (renderHashtag rightEnvironment right.depth right.context) document
            rightOpened) := by
        rw [leftVisits, rightVisits] at parts ⊢
        exact lockstep_sameCourse.envelope options start fun inside =>
          lockstep_sameCourse.paragraphs
            (Site.ofPage leftEnvironment left.depth left.context leftOpened)
            (Site.ofPage rightEnvironment right.depth right.context rightOpened) inside
            parts
      refine ⟨?_, ?_, ?_⟩
      · rw [result_of_opened leftOpens, result_of_opened rightOpens]
        dsimp only
        rw [envelope.failure, twins.source]
      · rw [result_of_opened leftOpens, result_of_opened rightOpens]
        exact envelope.sideBySide.twins.close envelope.sideBySide.shows.hides
          twins.session.page
      · refine .cons ⟨twins.source, ?_, ?_⟩ envelope.started
        · rw [leftOpens, rightOpens]
          rfl
        · rw [html, html, leftOpens, rightOpens]
          exact envelope.html

/-! ## Hashtags -/

section Hashtags

variable
  {left right : Visit}
  (sideBySide : left.SideBySide leftEnvironment.options disk right)
  (finds : FindsDocuments leftEnvironment [left])
  {hashtag : Document.Hashtag}
  (block : left.block = .hashtag hashtag)

omit options in
/-- Nested documents are not hidden. -/
theorem FindsDocuments.seen
    (finds : FindsDocuments leftEnvironment [left])
    (block : left.block = .hashtag hashtag)
    (target : String)
    (source : Location)
    (directive : Directive.ofHashtag? hashtag = some (.nested target))
    (located : locateSource left.session.disk (left.context.base.resolve target) =
      .ok source) :
    ¬MayShowCode leftEnvironment.options disk source :=
  not_mayShowCode (finds left (.start List.mem_cons_self) source
    (mem_finds_of_nested ((directive_of_block block).trans directive) located))

include sideBySide

omit options in
/-- The same compilation is started on both sides, or on neither. -/
theorem Visit.SideBySide.starts :
    right.starts? = left.starts?.map fun next =>
      { next with session := right.session } := by
  obtain ⟨⟨depth, context, around, session⟩, block⟩ := left
  obtain ⟨⟨otherDepth, otherContext, otherAround, otherSession⟩, other⟩ := right
  obtain rfl : block = other := sideBySide.block
  obtain rfl : depth = otherDepth := sideBySide.depth
  obtain rfl : context = otherContext := sideBySide.context
  cases block with
  | hashtag hashtag =>
      cases depth with
      | zero => rfl
      | succ depth => exact sideBySide.session.twins.linked depth context hashtag
  | _ => rfl

include finds block

theorem Visit.SideBySide.transcluded :
    transcluded? leftEnvironment left.context hashtag left.session =
      transcluded? rightEnvironment right.context hashtag right.session := by
  rw [← sideBySide.context]
  exact sideBySide.session.twins.transcluded options
    sideBySide.session.shows.grows.orderly (finds.seen block)

/-- A hashtag that brings in no document and starts no compilation. -/
theorem Visit.SideBySide.sameCourse_unbrought
    (alone : left.depth = 0 ∨
      transcluded? leftEnvironment left.context hashtag left.session = none)
    (starts : left.starts? = none) :
    SameCourse leftEnvironment rightEnvironment disk [] []
      (left.outcome leftEnvironment) (right.outcome rightEnvironment) := by
  have start := sideBySide.session
  have unlinked : ∀ depth, left.depth = depth + 1 →
      linked? depth left.context hashtag left.session = none := by
    intro depth deep
    rw [Visit.starts?, block, deep] at starts
    exact starts
  rw [Visit.outcome_hashtag block, Visit.outcome_hashtag (sideBySide.block.symm.trans block),
    ← sideBySide.depth, ← sideBySide.context]
  cases deep : left.depth with
  | zero =>
      rw [renderHashtag, renderHashtag]
      exact .alone rfl start .done
  | succ depth =>
      rw [deep] at alone
      rcases start.twins.renderHashtag_alone options start.shows.grows.orderly
          (finds.seen block) (alone.resolve_left (Nat.succ_ne_zero depth))
          (unlinked depth deep) with
        ⟨error, leftFails, rightFails⟩ | ⟨pieces, leftWrites, rightWrites⟩
      · rw [leftFails, rightFails]
        exact .alone rfl start .done
      · rw [leftWrites, rightWrites]
        exact lockstep_sameCourse.emit pieces start

/-- A hashtag that brings in a document takes the course of the visits in it. -/
theorem Visit.SideBySide.sameCourse_brought
    {depth : Nat}
    (deep : left.depth = depth + 1)
    {inner : Context}
    {document : Document}
    (brings : transcluded? leftEnvironment left.context hashtag left.session =
      some (inner, document))
    (parts : ∀ visit ∈ left.inside leftEnvironment, ∀ other : Visit,
      visit.SideBySide leftEnvironment.options disk other →
      SameCourse leftEnvironment rightEnvironment disk [visit] [other]
        (visit.outcome leftEnvironment) (other.outcome rightEnvironment)) :
    SameCourse leftEnvironment rightEnvironment disk (left.inside leftEnvironment)
      (right.inside rightEnvironment) (left.outcome leftEnvironment)
      (right.outcome rightEnvironment) := by
  have rightBlock := sideBySide.block.symm.trans block
  have rightDeep := sideBySide.depth.symm.trans deep
  have rightBrings := (sideBySide.transcluded options finds block).symm.trans brings
  rw [Visit.inside_hashtag block deep brings] at parts ⊢
  rw [Visit.inside_hashtag rightBlock rightDeep rightBrings,
    Visit.outcome_hashtag block, Visit.outcome_hashtag rightBlock, deep, rightDeep,
    renderHashtag_of_transcluded brings, renderHashtag_of_transcluded rightBrings]
  refine lockstep_sameCourse.paragraphs ⟨depth, inner, left.around, left.session⟩
    ⟨depth, inner, right.around, right.session⟩ sideBySide.session ?_
  intro visit member other otherMember same start
  refine parts visit member other ⟨same, ?_, ?_, start⟩
  all_goals
    obtain ⟨_, _, _, _, _, rfl⟩ := Site.mem_paragraphs member
    obtain ⟨_, _, _, _, _, rfl⟩ := Site.mem_paragraphs otherMember
    rfl

/-- A hashtag that starts no compilation takes the course of the visits inside it. -/
theorem Visit.SideBySide.sameCourse_hashtag
    (starts : left.starts? = none)
    (parts : ∀ visit ∈ left.inside leftEnvironment, ∀ other : Visit,
      visit.SideBySide leftEnvironment.options disk other →
      SameCourse leftEnvironment rightEnvironment disk [visit] [other]
        (visit.outcome leftEnvironment) (other.outcome rightEnvironment)) :
    SameCourse leftEnvironment rightEnvironment disk (left.inside leftEnvironment)
      (right.inside rightEnvironment) (left.outcome leftEnvironment)
      (right.outcome rightEnvironment) := by
  have same := sideBySide.transcluded options finds block
  have rightBlock := sideBySide.block.symm.trans block
  have unbrought : left.depth = 0 ∨
      transcluded? leftEnvironment left.context hashtag left.session = none →
      left.inside leftEnvironment = [] ∧ right.inside rightEnvironment = [] := by
    intro alone
    have rightAlone := alone
    rw [same, sideBySide.depth] at rightAlone
    constructor
    · refine Visit.inside_of_leaf ?_
      rw [Visit.Contains, block]
      exact not_not_intro alone
    · refine Visit.inside_of_leaf ?_
      rw [Visit.Contains, rightBlock]
      exact not_not_intro rightAlone
  cases deep : left.depth with
  | zero =>
      obtain ⟨leftNone, rightNone⟩ := unbrought (.inl deep)
      rw [leftNone, rightNone]
      exact sideBySide.sameCourse_unbrought options finds block (.inl deep) starts
  | succ depth =>
      cases brings : transcluded? leftEnvironment left.context hashtag left.session with
      | none =>
          obtain ⟨leftNone, rightNone⟩ := unbrought (.inr brings)
          rw [leftNone, rightNone]
          exact sideBySide.sameCourse_unbrought options finds block (.inr brings) starts
      | some found =>
          obtain ⟨inner, document⟩ := found
          exact sideBySide.sameCourse_brought options finds block deep brings parts

end Hashtags

omit options in
/-- A visit that starts a compilation writes its link after it. -/
theorem outcome_of_starts
    {environment : Environment}
    {visit : Visit}
    {next : Compilation}
    (starts : visit.starts? = some next) :
    ∃ target title, visit.directive? = some (.link target title) ∧
      visit.outcome environment =
        linkOutcome (linkPieces (Target.page target) title)
          (next.result environment) := by
  obtain ⟨⟨depth, context, around, session⟩, block⟩ := visit
  unfold Visit.starts? at starts
  split at starts
  next hashtag below blockEqual depthEqual =>
    cases blockEqual
    cases depthEqual
    obtain ⟨target, title, directive, _, _, writes⟩ :=
      renderHashtag_of_linked starts
    refine ⟨target, title, directive, ?_⟩
    rw [Visit.outcome, renderBlock]
    exact writes
  next => cases starts

omit options in
/-- Visits that start compilations with the same result. -/
theorem Visit.SideBySide.sameCourse_linked
    {left right : Visit}
    (sideBySide : left.SideBySide leftEnvironment.options disk right)
    {next : Compilation}
    (starts : left.starts? = some next)
    (same : next.SameResult leftEnvironment rightEnvironment disk
      { next with session := right.session })
    (shows : (next.result leftEnvironment).2.Shows disk) :
    SameCourse leftEnvironment rightEnvironment disk [left] [right]
      (left.outcome leftEnvironment) (right.outcome rightEnvironment) := by
  have rightStarts := sideBySide.starts
  rw [starts, Option.map_some] at rightStarts
  have leftLeaf : left.inside leftEnvironment = [] :=
    Visit.inside_of_leaf fun contains => by
      rw [starts_of_contains contains] at starts
      cases starts
  have rightLeaf : right.inside rightEnvironment = [] :=
    Visit.inside_of_leaf fun contains => by
      rw [starts_of_contains contains] at rightStarts
      cases rightStarts
  have noCalls : callsMet leftEnvironment false [left] = [] := by
    rw [callsMet_singleton, call_of_starts starts, starts, leftLeaf]
    rfl
  have started : List.Forall₂
      (Compilation.SamePage leftEnvironment rightEnvironment)
      ([left].flatMap (Visit.started leftEnvironment))
      ([right].flatMap (Visit.started rightEnvironment)) := by
    rw [List.flatMap_singleton, List.flatMap_singleton, Visit.started_eq,
      Visit.started_eq, starts, rightStarts, leftLeaf, rightLeaf, List.flatMap_nil,
      List.flatMap_nil, List.append_nil, List.append_nil]
    exact same.started
  obtain ⟨target, title, directive, leftWrites⟩ :=
    @outcome_of_starts leftEnvironment _ _ starts
  obtain ⟨otherTarget, otherTitle, otherDirective, rightWrites⟩ :=
    @outcome_of_starts rightEnvironment _ _ rightStarts
  rw [Visit.directive?, ← sideBySide.block, ← Visit.directive?, directive]
    at otherDirective
  cases otherDirective
  obtain ⟨answer, twins, _⟩ := same
  rw [leftWrites, rightWrites]
  generalize next.result leftEnvironment = leftResult at answer twins shows
  generalize Compilation.result rightEnvironment _ = rightResult at answer twins
  obtain ⟨leftAnswer, leftAfter⟩ := leftResult
  obtain ⟨rightAnswer, rightAfter⟩ := rightResult
  obtain rfl : leftAnswer = rightAnswer := answer
  have after : leftAfter.SideBySide leftEnvironment.options disk rightAfter :=
    ⟨shows, twins⟩
  cases leftAnswer with
  | error error =>
      refine ⟨rfl, after, ?_, started⟩
      rw [noCalls]
      exact .done
  | ok path =>
      have written := after.writeUnits (linkPieces (Target.page target) title)
        (linkPieces (Target.page target) title)
      refine ⟨rfl, written, ?_, started⟩
      rw [noCalls]
      exact sameButAnswers_refl _

/-! ## Runs -/

section Runs

variable
  (leftAlone : LeavesAlone leftEnvironment.machine)
  (rightAlone : LeavesAlone rightEnvironment.machine)

include leftAlone rightAlone

/-- Visits that are taken up side by side take the same course. -/
theorem Visit.SideBySide.sameCourse
    {left right : Visit}
    (sideBySide : left.SideBySide leftEnvironment.options disk right)
    (finds : FindsDocuments leftEnvironment [left]) :
    SameCourse leftEnvironment rightEnvironment disk [left] [right]
      (left.outcome leftEnvironment) (right.outcome rightEnvironment) := by
  -- The visits inside a visit are of parts of its block, and those in a page that it
  -- starts are less deep. Both are taken up side by side again.
  induction left using Visit.inductionBelow leftEnvironment generalizing right with
  | step left inside lower =>
      have findsInside : ∀ inner ∈ left.inside leftEnvironment,
          FindsDocuments leftEnvironment [inner] := fun inner member =>
        finds.single (.inside (.start List.mem_cons_self) member)
      cases starts : left.starts? with
      | some next =>
          have rightStarts := sideBySide.starts
          rw [starts, Option.map_some] at rightStarts
          have here : Occurs leftEnvironment [left] left := .start List.mem_cons_self
          have sound := finds.isSound here starts
          have shows : next.session.Shows disk := by
            rw [session_of_starts starts]
            exact sideBySide.session.shows
          have twins : next.Twins (MayShowCode leftEnvironment.options disk)
              { next with session := right.session } := by
            refine ⟨rfl, rfl, ?_⟩
            rw [session_of_starts starts]
            exact sideBySide.session.twins
          have started : ∀ compilation ∈ next.started leftEnvironment,
              compilation ∈ left.started leftEnvironment := by
            rw [Visit.started_eq, starts]
            exact fun _ member => List.mem_append_left _ member
          refine sideBySide.sameCourse_linked starts
            (Compilation.sameResult options twins shows sound.met ?_) ?_
          · intro visit member other otherMember same start
            obtain ⟨depth, context⟩ := Compilation.mem_visits member
            obtain ⟨otherDepth, otherContext⟩ := Compilation.mem_visits otherMember
            refine lower visit ?_ ⟨same, depth.trans otherDepth.symm,
              context.trans otherContext.symm, start⟩
              (finds.single (.linked here starts member))
            rw [depth]
            exact depth_of_starts starts
          · exact (Compilation.runs fun visit _ => visit.course).shows leftAlone shows
              (fun compilation member => finds.isMet here (started _ member))
              (fun compilation member => left.fresh_of_mem_started (started _ member))
      | none =>
          have rightStarts := sideBySide.starts
          rw [starts, Option.map_none] at rightStarts
          by_cases isHashtag : ∃ hashtag, left.block = .hashtag hashtag
          · obtain ⟨hashtag, block⟩ := isHashtag
            refine .single ?_ starts rightStarts
              (sideBySide.sameCourse_hashtag options finds block starts
                fun inner member other otherSide =>
                  inside inner member otherSide (findsInside inner member))
            rw [Visit.call?, block]
          · have noHashtag := not_exists.mp isHashtag
            by_cases contains : left.Contains leftEnvironment
            · refine .single (call_of_contains contains) starts rightStarts
                (lockstep_sameCourse.inside sideBySide.block sideBySide.session contains
                  noHashtag ?_)
              intro inner member other otherMember same start
              have otherNoHashtag : ∀ hashtag, right.block ≠ .hashtag hashtag := by
                rw [← sideBySide.block]
                exact noHashtag
              obtain ⟨depth, context⟩ := context_of_inside noHashtag member
              obtain ⟨otherDepth, otherContext⟩ :=
                context_of_inside otherNoHashtag otherMember
              refine inside inner member ⟨same, ?_, ?_, start⟩
                (findsInside inner member)
              · rw [depth, otherDepth, sideBySide.depth]
              · rw [context, otherContext, sideBySide.context]
            · exact sameCourse_leaf leftAlone rightAlone sideBySide contains noHashtag

end Runs

end Options

end Courses

end Page
end NotePress
