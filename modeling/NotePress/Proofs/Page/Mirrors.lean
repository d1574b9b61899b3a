import NotePress.Proofs.Page.Reachability

/-!
# Renders of the same documents

Two renders of a document may compile different documents and run different code on the
way, since they may start with different documents compiled. What they write for a block
is the same: links are written after their targets whether these are compiled or not,
and what is brought in is the same on disks that show the same.
-/

namespace NotePress
namespace Page

open Html (Piece)
open Document (Block)

/-- A machine whose answers depend on the code alone, and that leaves disks alone. -/
def AnswersBy
    (machine : Machine)
    (answers : CodeCall → Except ExecutionError String) : Prop :=
  ∀ disk index call, machine disk index call = (answers call, disk)

theorem AnswersBy.leavesAlone
    {machine : Machine}
    {answers : CodeCall → Except ExecutionError String}
    (answersBy : AnswersBy machine answers) :
    LeavesAlone machine := by
  intro disk index call
  rw [answersBy]

/-! ## Blocks that bring in nothing -/

/-- Outcomes that wrote the same and were stopped by the same. -/
def SameWriting (left right : Outcome) : Prop :=
  left.html = right.html ∧ left.failure = right.failure

/-- Outcomes that wrote the same, if nothing stopped them. -/
def SameHtml (left right : Outcome) : Prop :=
  left.failure = none → right.failure = none → left.html = right.html

/-- Outcomes of which the second is complete if the first is. -/
def CompleteAgain (left right : Outcome) : Prop :=
  left.failure = none → right.failure = none

theorem SameWriting.sameHtml
    {left right : Outcome}
    (same : SameWriting left right) :
    SameHtml left right :=
  fun _ _ => same.1

theorem SameWriting.completeAgain
    {left right : Outcome}
    (same : SameWriting left right) :
    CompleteAgain left right :=
  fun complete => same.2.symm.trans complete

theorem pairing_sameHtml : Pairing (fun _ _ => True) SameHtml where
  done := fun _ _ _ => rfl
  emit := fun _ _ _ _ => rfl
  andThen := by
    intro left right leftNext rightNext front back leftComplete rightComplete
    obtain ⟨leftFront, leftBack⟩ := complete_of_andThen leftComplete
    obtain ⟨rightFront, rightBack⟩ := complete_of_andThen rightComplete
    rw [Outcome.andThen_of_complete leftFront,
      Outcome.andThen_of_complete rightFront, front leftFront rightFront,
      back trivial leftFront rightFront leftBack rightBack]

theorem pairing_completeAgain : Pairing (fun _ _ => True) CompleteAgain where
  done := fun _ _ => rfl
  emit := fun _ _ _ => rfl
  andThen := by
    intro left right leftNext rightNext front back complete
    obtain ⟨leftFront, leftBack⟩ := complete_of_andThen complete
    have rightFront := front leftFront
    rw [Outcome.andThen_of_complete rightFront]
    exact back trivial leftFront rightFront leftBack

section Renders

variable
  {environment : Environment}
  {answers : CodeCall → Except ExecutionError String}
  (answersBy : AnswersBy environment.machine answers)

include answersBy

theorem sameWriting_renderCode
    (block : Document.CodeBlock)
    (left right : Session) :
    SameWriting (renderCode environment block left)
      (renderCode environment block right) := by
  rw [renderCode, renderCode]
  split
  · exact ⟨rfl, rfl⟩
  · rw [runCode, runCode, answersBy, answersBy]
    dsimp only
    cases answers ⟨block.command, block.code⟩ with
    | error error => exact ⟨rfl, rfl⟩
    | ok output =>
        dsimp only
        split <;> exact ⟨rfl, rfl⟩

/-- What is written for a block that is neither a container nor a hashtag is told from
the block. -/
theorem Visit.sameWriting_leaf
    {left right : Visit}
    (same : left.block = right.block)
    (leaf : ¬left.Contains environment)
    (noHashtag : ∀ hashtag, left.block ≠ .hashtag hashtag) :
    SameWriting (left.outcome environment) (right.outcome environment) := by
  obtain ⟨left, block⟩ := left
  obtain ⟨right, other⟩ := right
  obtain rfl : block = other := same
  rw [Visit.outcome, Visit.outcome]
  cases block with
  | hashtag hashtag => exact absurd rfl (noHashtag hashtag)
  | heading level children =>
      have invalid : ¬(1 ≤ level ∧ level ≤ 6) := leaf
      rw [renderBlock, renderBlock, if_neg invalid, if_neg invalid]
      exact ⟨rfl, rfl⟩
  | codeBlock code =>
      rw [renderBlock, renderBlock]
      exact sameWriting_renderCode answersBy code _ _
  | quotation quotation =>
      rw [renderBlock, renderBlock, renderQuotation, renderQuotation]
      split <;> exact ⟨rfl, rfl⟩
  | styled _ _ | orderedItem _ _ | unorderedItem _ | table _ =>
      exact (leaf trivial).elim
  | _ =>
      rw [renderBlock, renderBlock]
      exact ⟨rfl, rfl⟩

end Renders

/-! ## Visits side by side -/

/-- Visits of the same block in the same directory, that see the same and find
documents. -/
structure Visit.Mirrors
    (environment : Environment)
    (left right : Visit) : Prop where
  block : left.block = right.block
  base : left.context.base = right.context.base
  leftTidy : ∃ owner, left.session.IsTidy owner
  rightTidy : ∃ owner, right.session.IsTidy owner
  alike : Disk.Alike left.session.disk right.session.disk
  leftFinds : FindsDocuments environment [left]
  rightFinds : FindsDocuments environment [right]

section Mirrors

variable
  {environment : Environment}
  (alone : LeavesAlone environment.machine)

theorem Visit.mirrors_of_shows
    {left right : Visit}
    {leftDisk rightDisk : Disk}
    (alike : Disk.Alike leftDisk rightDisk)
    (block : left.block = right.block)
    (base : left.context.base = right.context.base)
    (leftShows : left.session.Shows leftDisk)
    (rightShows : right.session.Shows rightDisk)
    (leftFinds : FindsDocuments environment [left])
    (rightFinds : FindsDocuments environment [right]) :
    left.Mirrors environment right :=
  ⟨block, base, leftShows.tidy, rightShows.tidy,
    (leftShows.alike.symm.trans alike).trans rightShows.alike, leftFinds,
    rightFinds⟩

theorem FindsDocuments.single
    {visits : List Visit}
    (finds : FindsDocuments environment visits)
    {visit : Visit}
    (occurs : Occurs environment visits visit) :
    FindsDocuments environment [visit] :=
  finds.of_occurs (List.forall_mem_singleton.mpr occurs)

include alone

/-- What is inside a visit sees what the visit sees. -/
theorem Visit.shows_inside
    {outer inner : Visit}
    (tidy : ∃ owner, outer.session.IsTidy owner)
    (finds : FindsDocuments environment [outer])
    (member : inner ∈ outer.inside environment) :
    inner.session.Shows outer.session.disk ∧
      FindsDocuments environment [inner] := by
  obtain ⟨owner, tidy⟩ := tidy
  have occurs : Occurs environment [outer] inner :=
    .inside (.start List.mem_cons_self) member
  exact ⟨occurs.shows alone finds (List.forall_mem_singleton.mpr tidy.shows),
    finds.single occurs⟩

theorem Visit.Mirrors.inside
    {left right inner other : Visit}
    (mirrors : left.Mirrors environment right)
    (member : inner ∈ left.inside environment)
    (otherMember : other ∈ right.inside environment)
    (block : inner.block = other.block)
    (base : inner.context.base = other.context.base) :
    inner.Mirrors environment other := by
  obtain ⟨leftShows, leftFinds⟩ :=
    Visit.shows_inside alone mirrors.leftTidy mirrors.leftFinds member
  obtain ⟨rightShows, rightFinds⟩ :=
    Visit.shows_inside alone mirrors.rightTidy mirrors.rightFinds otherMember
  exact Visit.mirrors_of_shows mirrors.alike block base leftShows rightShows
    leftFinds rightFinds

omit alone in
/-- The directories of visits inside containers are those of the containers. -/
theorem context_of_inside
    {outer inner : Visit}
    (noHashtag : ∀ hashtag, outer.block ≠ .hashtag hashtag)
    (member : inner ∈ outer.inside environment) :
    inner.depth = outer.depth ∧ inner.context = outer.context := by
  rcases Visit.document_cases member with
    ⟨depth, context, _⟩ | ⟨hashtag, _, isHashtag, _⟩
  · exact ⟨depth, context⟩
  · exact absurd isHashtag (noHashtag hashtag)

omit alone in
/-- Mirrored hashtags bring in the same. -/
theorem Visit.Mirrors.brings
    {left right : Visit}
    (mirrors : left.Mirrors environment right)
    {hashtag : Document.Hashtag}
    (block : left.block = .hashtag hashtag)
    {leftInner rightInner : Context}
    {leftDocument rightDocument : Document}
    (leftBrings : transcluded? environment left.context hashtag left.session =
      some (leftInner, leftDocument))
    (rightBrings : transcluded? environment right.context hashtag right.session =
      some (rightInner, rightDocument)) :
    leftInner.base = rightInner.base ∧ leftDocument = rightDocument := by
  obtain ⟨_, leftTidy⟩ := mirrors.leftTidy
  obtain ⟨_, rightTidy⟩ := mirrors.rightTidy
  have rightBlock := mirrors.block.symm.trans block
  have leftFinds := mirrors.leftFinds left (.start List.mem_cons_self)
  have rightFinds := mirrors.rightFinds right (.start List.mem_cons_self)
  have seen : right.directive? = some .autoNested →
      Source.IndexesSeen right.session.disk right.context.base
        environment.options.indexFileName :=
    indexesSeen_of_finds rightFinds
  have rightIncluded := included_of_transcluded rightTidy.orderly
    rightTidy.orderly (.refl _) rightFinds seen rightBlock rightBrings
  have leftIncluded := included_of_transcluded rightTidy.orderly
    leftTidy.orderly mirrors.alike leftFinds
    (by
      rw [directive_of_block block, ← directive_of_block rightBlock, mirrors.base]
      exact seen)
    block leftBrings
  rw [mirrors.base, rightIncluded] at leftIncluded
  have same := Part.mk.inj (Option.some.inj leftIncluded)
  exact ⟨same.1.symm, same.2.symm⟩

omit alone in
theorem directive_of_transcluded
    {context : Context}
    {hashtag : Document.Hashtag}
    {session : Session}
    {found : Context × Document}
    (brings : transcluded? environment context hashtag session = some found) :
    (∃ target, Directive.ofHashtag? hashtag = some (.nested target)) ∨
      Directive.ofHashtag? hashtag = some .autoNested := by
  obtain ⟨inner, document⟩ := found
  cases transcluded_iff.mp brings with
  | nested directive _ _ _ => exact .inl ⟨_, directive⟩
  | autoNested directive _ => exact .inr directive

omit alone in
/-- A hashtag that completes without bringing in a document writes its own pieces. -/
theorem html_of_not_transcluded
    {visit : Visit}
    {hashtag : Document.Hashtag}
    (block : visit.block = .hashtag hashtag)
    (unbrought : transcluded? environment visit.context hashtag visit.session =
      none)
    (complete : (visit.outcome environment).failure = none) :
    ∃ directive, Directive.ofHashtag? hashtag = some directive ∧
      (visit.outcome environment).html = directivePieces hashtag directive := by
  rw [Visit.outcome_hashtag block] at complete ⊢
  rcases renderHashtag_of_not_transcluded (.inr unbrought) with
    ⟨error, after, fails⟩ | ⟨directive, after, found, writes⟩
  · rw [fails] at complete
    cases complete
  · rw [writes]
    exact ⟨directive, found, rfl⟩

/-- Mirrored hashtags write the same when what is inside them does. -/
theorem Visit.Mirrors.sameHtml_hashtag
    {left right : Visit}
    (mirrors : left.Mirrors environment right)
    {hashtag : Document.Hashtag}
    (block : left.block = .hashtag hashtag)
    (inside : ∀ inner ∈ left.inside environment, ∀ other : Visit,
      inner.Mirrors environment other →
      SameHtml (inner.outcome environment) (other.outcome environment)) :
    SameHtml (left.outcome environment) (right.outcome environment) := by
  intro leftComplete rightComplete
  have rightBlock := mirrors.block.symm.trans block
  -- A hashtag that names a document to bring in, and completes, has brought it in.
  have brings : ∀ {visit : Visit}, visit.block = .hashtag hashtag →
      (visit.outcome environment).failure = none →
      ((∃ target, Directive.ofHashtag? hashtag = some (.nested target)) ∨
        Directive.ofHashtag? hashtag = some .autoNested) →
      ∃ below inner document, visit.depth = below + 1 ∧
        transcluded? environment visit.context hashtag visit.session =
          some (inner, document) := by
    intro visit block complete directive
    rw [Visit.outcome_hashtag block] at complete
    exact transcluded_of_complete directive complete
  by_cases directive : (∃ target,
      Directive.ofHashtag? hashtag = some (.nested target)) ∨
      Directive.ofHashtag? hashtag = some .autoNested
  · obtain ⟨leftBelow, leftInner, document, leftDeep, leftBrings⟩ :=
      brings block leftComplete directive
    obtain ⟨rightBelow, rightInner, _, rightDeep, rightBrings⟩ :=
      brings rightBlock rightComplete directive
    obtain ⟨base, rfl⟩ := mirrors.brings block leftBrings rightBrings
    have leftInside := Visit.inside_hashtag block leftDeep leftBrings
    have rightInside := Visit.inside_hashtag rightBlock rightDeep rightBrings
    rw [Visit.outcome_hashtag block, leftDeep,
      renderHashtag_of_transcluded leftBrings] at leftComplete ⊢
    rw [Visit.outcome_hashtag rightBlock, rightDeep,
      renderHashtag_of_transcluded rightBrings] at rightComplete ⊢
    refine pairing_sameHtml.paragraphs
      ⟨leftBelow, leftInner, left.around, left.session⟩
      ⟨rightBelow, rightInner, right.around, right.session⟩ trivial ?_
      leftComplete rightComplete
    intro inner member other otherMember same _
    have innerInside : inner ∈ left.inside environment := by rwa [leftInside]
    have otherInside : other ∈ right.inside environment := by rwa [rightInside]
    refine inside inner innerInside other
      (mirrors.inside alone innerInside otherInside same ?_)
    obtain ⟨_, _, _, _, _, rfl⟩ := Site.mem_paragraphs member
    obtain ⟨_, _, _, _, _, rfl⟩ := Site.mem_paragraphs otherMember
    exact base
  · have unbrought : ∀ visit : Visit,
        transcluded? environment visit.context hashtag visit.session = none := by
      intro visit
      refine Option.eq_none_iff_forall_ne_some.mpr fun found brought => ?_
      exact directive (directive_of_transcluded brought)
    obtain ⟨taken, found, leftHtml⟩ :=
      html_of_not_transcluded block (unbrought left) leftComplete
    obtain ⟨again, foundAgain, rightHtml⟩ :=
      html_of_not_transcluded rightBlock (unbrought right) rightComplete
    obtain rfl := Option.some.inj (found.symm.trans foundAgain)
    rw [leftHtml, rightHtml]

end Mirrors

section Agreement

variable
  {environment : Environment}
  {answers : CodeCall → Except ExecutionError String}
  (answersBy : AnswersBy environment.machine answers)

include answersBy

/-- Mirrored visits write the same. -/
theorem Visit.Mirrors.sameHtml
    {left right : Visit}
    (mirrors : left.Mirrors environment right) :
    SameHtml (left.outcome environment) (right.outcome environment) := by
  have alone := answersBy.leavesAlone
  induction left using Visit.induction environment generalizing right with
  | step left inductionHypothesis =>
      by_cases isHashtag : ∃ hashtag, left.block = .hashtag hashtag
      · obtain ⟨hashtag, block⟩ := isHashtag
        exact mirrors.sameHtml_hashtag alone block
          fun inner member _ => inductionHypothesis inner member
      · have noHashtag := not_exists.mp isHashtag
        have otherNoHashtag : ∀ hashtag, right.block ≠ .hashtag hashtag := by
          rw [← mirrors.block]
          exact noHashtag
        by_cases contains : left.Contains environment
        · refine pairing_sameHtml.inside mirrors.block trivial contains noHashtag
            fun inner member other otherMember same _ =>
              inductionHypothesis inner member
                (mirrors.inside alone member otherMember same ?_)
          rw [(context_of_inside noHashtag member).2,
            (context_of_inside otherNoHashtag otherMember).2]
          exact mirrors.base
        · exact (Visit.sameWriting_leaf answersBy mirrors.block contains
            noHashtag).sameHtml

end Agreement

/-! ## Rendering again -/

section Again

variable {environment : Environment}

theorem Visit.advances (visit : Visit) :
    visit.Advances environment fun _ => True :=
  visit.course.runs.advances fun _ _ => trivial

theorem Compilation.advances (compilation : Compilation) :
    (compilation.stretch environment).Advances environment fun _ => True :=
  (Compilation.composed trivial fun visit _ => visit.advances).advances

/-- The visits inside a visit are parts of it. -/
theorem Visit.partOf_inside
    {outer inner : Visit}
    (member : inner ∈ outer.inside environment) :
    PartOf environment (fun _ => True) (inner.stretch environment)
      (outer.stretch environment) :=
  (composed_inside outer (fun visit _ => visit.advances)
    fun next _ => next.advances).parts inner member

/-- The document of a link counts as compiled after it. -/
theorem mem_compiled_of_link
    {visit : Visit}
    {target title : String}
    (link : visit.directive? = some (.link target title))
    (isSource : Target.isSource target = true)
    (complete : (visit.outcome environment).failure = none) :
    ∃ source,
      locateSource visit.session.disk (visit.context.base.resolve target) =
        .ok source ∧
      source ∈ (visit.outcome environment).session.compiled := by
  obtain ⟨_, source, located, before | ⟨next, starts, rfl⟩⟩ :=
    outcome_of_link link isSource complete
  · exact ⟨source, located, (@Visit.advances environment visit).compiled before⟩
  · have part : PartOf environment (fun _ => True) (next.stretch environment)
        (visit.stretch environment) := partOf_starts starts
    have begun : next.source ∈ (next.result environment).2.compiled := by
      rw [next.compiled_result.1]
      exact List.mem_append_left _ Compilation.mem_begun
    exact ⟨next.source, located, part.after.compiled begun⟩

/-- A visit in the same place as another one, when all is compiled that is compiled
after the other one. -/
structure Visit.Repeats
    (environment : Environment)
    (left right : Visit) : Prop extends
    Visit.Mirrors environment left right where
  context : left.context = right.context
  depth : left.depth = right.depth
  covered :
    (left.outcome environment).session.compiled ⊆ right.session.compiled

variable (alone : LeavesAlone environment.machine)

include alone

theorem Visit.Repeats.inside
    {left right inner other : Visit}
    (repeats : left.Repeats environment right)
    (member : inner ∈ left.inside environment)
    (otherMember : other ∈ right.inside environment)
    (block : inner.block = other.block)
    (context : inner.context = other.context)
    (depth : inner.depth = other.depth) :
    inner.Repeats environment other :=
  ⟨repeats.toMirrors.inside alone member otherMember block
      (congrArg Context.base context), context, depth,
    List.Subset.trans (Visit.partOf_inside member).after.compiled
      (List.Subset.trans repeats.covered
        (Visit.partOf_inside otherMember).before.compiled)⟩

omit alone in
/-- What was brought in is brought in again. -/
theorem Visit.Repeats.transcluded
    {left right : Visit}
    (repeats : left.Repeats environment right)
    {hashtag : Document.Hashtag}
    (block : left.block = .hashtag hashtag)
    {inner : Context}
    {document : Document}
    (brings : transcluded? environment left.context hashtag left.session =
      some (inner, document)) :
    transcluded? environment right.context hashtag right.session =
      some (inner, document) := by
  obtain ⟨_, leftTidy⟩ := repeats.leftTidy
  obtain ⟨_, rightTidy⟩ := repeats.rightTidy
  have leftFinds := repeats.leftFinds left (.start List.mem_cons_self)
  have rightFinds := repeats.rightFinds right (.start List.mem_cons_self)
  have takesUp := directive_of_block block
  have rightTakesUp := directive_of_block (repeats.block.symm.trans block)
  rw [← repeats.context]
  cases transcluded_iff.mp brings with
  | @nested target source document directive located fresh reads =>
      have seen := (leftFinds source
        (mem_finds_of_nested (takesUp.trans directive) located)).not_isOutput
      obtain ⟨index, found⟩ := (locateSource_iff.mp located).2
      refine transcluded_iff.mpr (.nested directive
        (repeats.alike.locateSource located seen) fresh ?_)
      rw [repeats.alike.loadSource leftTidy.orderly found seen, reads]
  | @autoNested folders directive lists =>
      have rightSeen := indexesSeen_of_finds rightFinds
        (rightTakesUp.trans directive)
      rw [← repeats.context] at rightSeen
      exact transcluded_iff.mpr (.autoNested directive
        (repeats.alike.indexedFolders leftTidy.orderly rightTidy.orderly lists
          (indexesSeen_of_finds leftFinds (takesUp.trans directive)) rightSeen))

omit alone in
/-- A hashtag that wrote its own pieces does so again. -/
theorem Visit.Repeats.complete_alone
    {left right : Visit}
    (repeats : left.Repeats environment right)
    {hashtag : Document.Hashtag}
    (block : left.block = .hashtag hashtag)
    (unbrought : ¬((∃ target,
        Directive.ofHashtag? hashtag = some (.nested target)) ∨
      Directive.ofHashtag? hashtag = some .autoNested)) :
    CompleteAgain (left.outcome environment) (right.outcome environment) := by
  intro complete
  have takesUp := directive_of_block block
  have linked := @mem_compiled_of_link environment left
  rw [Visit.outcome_hashtag (repeats.block.symm.trans block), ← repeats.depth,
    ← repeats.context]
  have written := complete
  rw [Visit.outcome_hashtag block] at written
  cases depth : left.depth with
  | zero =>
      rw [depth, renderHashtag] at written
      cases written
  | succ below =>
      rw [depth, renderHashtag] at written
      rw [renderHashtag]
      cases directive : Directive.ofHashtag? hashtag with
      | none =>
          rw [directive] at written
          cases written
      | some taken =>
          rw [directive] at takesUp unbrought
          cases taken with
          | link target title =>
              dsimp only
              by_cases isSource : Target.isSource target = true
              · obtain ⟨source, located, compiled⟩ :=
                  linked takesUp isSource complete
                have seen := (repeats.leftFinds left (.start List.mem_cons_self)
                  source (mem_finds_of_link takesUp isSource located)).not_isOutput
                rw [if_pos isSource, repeats.alike.locateSource located seen]
                dsimp only
                rw [if_pos (List.contains_iff_mem.mpr (repeats.covered compiled))]
                rfl
              · rw [if_neg isSource]
                rfl
          | nested target => exact absurd (.inl ⟨target, rfl⟩) unbrought
          | autoNested => exact absurd (.inr rfl) unbrought
          | image source => rfl
          | other => rfl

/-- A hashtag completes again when what is inside it does. -/
theorem Visit.Repeats.complete_hashtag
    {left right : Visit}
    (repeats : left.Repeats environment right)
    {hashtag : Document.Hashtag}
    (block : left.block = .hashtag hashtag)
    (inside : ∀ inner ∈ left.inside environment, ∀ other : Visit,
      inner.Repeats environment other →
      CompleteAgain (inner.outcome environment) (other.outcome environment)) :
    CompleteAgain (left.outcome environment) (right.outcome environment) := by
  by_cases directive : (∃ target,
      Directive.ofHashtag? hashtag = some (.nested target)) ∨
      Directive.ofHashtag? hashtag = some .autoNested
  · intro complete
    have rightBlock := repeats.block.symm.trans block
    rw [Visit.outcome_hashtag block] at complete
    obtain ⟨below, context, document, deep, brings⟩ :=
      transcluded_of_complete directive complete
    have bringsAgain := repeats.transcluded block brings
    have rightDeep := repeats.depth.symm.trans deep
    have leftInside := Visit.inside_hashtag block deep brings
    have rightInside := Visit.inside_hashtag rightBlock rightDeep bringsAgain
    rw [deep, renderHashtag_of_transcluded brings] at complete
    rw [Visit.outcome_hashtag rightBlock, rightDeep,
      renderHashtag_of_transcluded bringsAgain]
    refine pairing_completeAgain.paragraphs
      ⟨below, context, left.around, left.session⟩
      ⟨below, context, right.around, right.session⟩ trivial ?_ complete
    intro inner member other otherMember same _
    have innerInside : inner ∈ left.inside environment := by rwa [leftInside]
    have otherInside : other ∈ right.inside environment := by rwa [rightInside]
    refine inside inner innerInside other
      (repeats.inside alone innerInside otherInside same ?_ ?_)
    all_goals
      obtain ⟨_, _, _, _, _, rfl⟩ := Site.mem_paragraphs member
      obtain ⟨_, _, _, _, _, rfl⟩ := Site.mem_paragraphs otherMember
      rfl
  · exact repeats.complete_alone block directive

omit alone in
/-- A visit that completed completes again. -/
theorem Visit.Repeats.completeAgain
    {answers : CodeCall → Except ExecutionError String}
    (answersBy : AnswersBy environment.machine answers)
    {left right : Visit}
    (repeats : left.Repeats environment right) :
    CompleteAgain (left.outcome environment) (right.outcome environment) := by
  have alone := answersBy.leavesAlone
  induction left using Visit.induction environment generalizing right with
  | step left inductionHypothesis =>
      by_cases isHashtag : ∃ hashtag, left.block = .hashtag hashtag
      · obtain ⟨hashtag, block⟩ := isHashtag
        exact repeats.complete_hashtag alone block
          fun inner member _ => inductionHypothesis inner member
      · have noHashtag := not_exists.mp isHashtag
        have otherNoHashtag : ∀ hashtag, right.block ≠ .hashtag hashtag := by
          rw [← repeats.block]
          exact noHashtag
        by_cases contains : left.Contains environment
        · refine pairing_completeAgain.inside repeats.block trivial contains
            noHashtag fun inner member other otherMember same _ =>
              inductionHypothesis inner member
                (repeats.inside alone member otherMember same ?_ ?_)
          · rw [(context_of_inside noHashtag member).2,
              (context_of_inside otherNoHashtag otherMember).2]
            exact repeats.context
          · rw [(context_of_inside noHashtag member).1,
              (context_of_inside otherNoHashtag otherMember).1]
            exact repeats.depth
        · exact (Visit.sameWriting_leaf answersBy repeats.block contains
            noHashtag).completeAgain

end Again

end Page
end NotePress
