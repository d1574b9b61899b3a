import NotePress.Proofs.Page.Mirrors

/-!
# Rendering does not depend on history

What is rendered depends on the documents, the options and the answers of the code, but
not on what was compiled before or on the pages that are on the disk. So a document is
rendered to the same when it is rendered again, and pages come to hold the same in
whatever order they are made.
-/

namespace NotePress
namespace Page

open Html (Piece)
open Disk (Grows)
open Relation (ReflTransGen)

/-! ## Documents -/

/-- Where a document is rendered and what it finds. -/
structure Rendering where
  context : Context
  session : Session

namespace Rendering

variable
  (environment : Environment)
  (document : Document)
  (rendering : Rendering)

/-- What comes of rendering a document. -/
def outcome : Outcome :=
  renderDocument environment rendering.context document rendering.session

/-- The visits in the document. -/
def visits : List Visit :=
  (Site.ofDocument rendering.context rendering.session).paragraphs environment
    document

/-- A document is rendered on an orderly disk while no page is open, and only documents
are found. -/
structure IsSound : Prop where
  orderly : rendering.session.disk.IsOrderly
  idle : rendering.session.page = none
  finds : FindsDocuments environment (rendering.visits environment document)

variable {environment document rendering}

theorem IsSound.tidy (sound : rendering.IsSound environment document) :
    rendering.session.IsTidy none :=
  Session.isTidy_of_idle sound.orderly sound.idle

theorem context_of_mem_visits
    {visit : Visit}
    (member : visit ∈ rendering.visits environment document) :
    visit.context = rendering.context := by
  obtain ⟨_, _, _, _, _, rfl⟩ := Site.mem_paragraphs member
  rfl

theorem depth_of_mem_visits
    {visit : Visit}
    (member : visit ∈ rendering.visits environment document) :
    visit.depth = depthBound rendering.session.disk := by
  obtain ⟨_, _, _, _, _, rfl⟩ := Site.mem_paragraphs member
  rfl

/-- The visits are parts of what comes of the rendering. -/
theorem partOf
    {visit : Visit}
    (member : visit ∈ rendering.visits environment document) :
    PartOf environment (fun _ => True) (visit.stretch environment)
      ((rendering.outcome environment document).from rendering.session) := by
  have composed : Composed environment (fun _ => True) (fun _ => False)
      (rendering.visits environment document)
      ((rendering.outcome environment document).from rendering.session) :=
    compositional_composed.paragraphs
      (Site.ofDocument rendering.context rendering.session)
      fun visit _ => .visit visit.advances
  exact composed.parts visit member

theorem course :
    Course environment rendering.session (rendering.visits environment document)
      (rendering.outcome environment document).html
      (rendering.outcome environment document).session :=
  compositional_course.paragraphs
    (Site.ofDocument rendering.context rendering.session)
    fun visit _ => visit.course.single

section Sound

variable
  (alone : LeavesAlone environment.machine)
  (sound : rendering.IsSound environment document)

include alone sound

/-- The visits see what the session shows, and find documents. -/
theorem IsSound.shows
    {visit : Visit}
    (member : visit ∈ rendering.visits environment document) :
    visit.session.Shows rendering.session.disk ∧
      FindsDocuments environment [visit] := by
  obtain ⟨written, started, runs, among⟩ := course.found visit member
  refine ⟨runs.shows alone sound.tidy.shows ?_ ?_, sound.finds.single (.start member)⟩
  · exact fun other taken => sound.finds.isMet_of_mem (among taken)
  · exact fun other taken => allFresh_started _ _ (among taken)

/-- Afterwards the session still shows what it did, and no page is open. -/
theorem IsSound.shows_after :
    (rendering.outcome environment document).session.Shows
        rendering.session.disk ∧
      (rendering.outcome environment document).session.page = none := by
  have ran := course.runs.ran alone sound.tidy
    (fun _ => sound.finds.isMet_of_mem) (allFresh_started _)
  exact ⟨ran.shows sound.tidy (.refl sound.orderly)
    fun _ => sound.finds.isMet_of_mem, ran.tidy.idle rfl⟩

end Sound

section Independence

variable
  {answers : CodeCall → Except ExecutionError String}
  (answersBy : AnswersBy environment.machine answers)

include answersBy

/-- A document is rendered to the same in sessions that show the same, whatever is
compiled and whatever documents are around it. -/
theorem sameHtml_outcome
    {left right : Rendering}
    (leftSound : left.IsSound environment document)
    (rightSound : right.IsSound environment document)
    (base : left.context.base = right.context.base)
    (alike : Disk.Alike left.session.disk right.session.disk) :
    SameHtml (left.outcome environment document)
      (right.outcome environment document) := by
  have alone := answersBy.leavesAlone
  refine pairing_sameHtml.paragraphs
    (Site.ofDocument left.context left.session)
    (Site.ofDocument right.context right.session) trivial ?_
  intro inner member other otherMember block _
  obtain ⟨leftShows, leftFinds⟩ := leftSound.shows alone member
  obtain ⟨rightShows, rightFinds⟩ := rightSound.shows alone otherMember
  refine (Visit.mirrors_of_shows alike block ?_ leftShows rightShows leftFinds
    rightFinds).sameHtml answersBy
  rw [@context_of_mem_visits environment document left inner member,
    @context_of_mem_visits environment document right other otherMember]
  exact base

/-- A document that was rendered is rendered again, to the same. -/
theorem complete_again
    (sound : rendering.IsSound environment document)
    (complete : (rendering.outcome environment document).failure = none)
    (finds : FindsDocuments environment
      (Rendering.visits environment document
        { rendering with
          session := (rendering.outcome environment document).session })) :
    let again : Rendering :=
      { rendering with
        session := (rendering.outcome environment document).session }
    (again.outcome environment document).failure = none ∧
      (again.outcome environment document).html =
        (rendering.outcome environment document).html := by
  intro again
  have alone := answersBy.leavesAlone
  obtain ⟨after, idle⟩ := sound.shows_after alone
  have againSound : again.IsSound environment document :=
    ⟨after.grows.orderly, idle, finds⟩
  have completeAgain : CompleteAgain (rendering.outcome environment document)
      (again.outcome environment document) := by
    refine pairing_completeAgain.paragraphs
      (Site.ofDocument rendering.context rendering.session)
      (Site.ofDocument again.context again.session) trivial ?_
    intro inner member other otherMember block _
    obtain ⟨leftShows, leftFinds⟩ := sound.shows alone member
    obtain ⟨rightShows, rightFinds⟩ := againSound.shows alone otherMember
    have context : inner.context = other.context :=
      (context_of_mem_visits member).trans
        (@context_of_mem_visits environment document again other
          otherMember).symm
    have mirrors := Visit.mirrors_of_shows after.alike block
      (congrArg Context.base context) leftShows rightShows leftFinds rightFinds
    refine Visit.Repeats.completeAgain answersBy ⟨mirrors, context, ?_, ?_⟩
    · exact (depth_of_mem_visits member).trans
        (@depth_of_mem_visits environment document again other otherMember).symm
    · exact List.Subset.trans (partOf member).after.compiled
        (@partOf environment document again other otherMember).before.compiled
  have finished := completeAgain complete
  exact ⟨finished, (sameHtml_outcome answersBy sound againSound rfl after.alike
    complete finished).symm⟩

end Independence

end Rendering

/-! ## Pages -/

/-- The pages of one document are the same, if they are completed in sessions that show
the same. -/
theorem Compilation.html_eq
    {environment : Environment}
    {answers : CodeCall → Except ExecutionError String}
    (answersBy : AnswersBy environment.machine answers)
    {disk : Disk}
    {left right : Compilation}
    (source : left.source = right.source)
    (leftSound : left.IsSound environment)
    (rightSound : right.IsSound environment)
    (leftShows : left.session.Shows disk)
    (rightShows : right.session.Shows disk)
    (leftComplete : (left.result environment).1.isOk = true)
    (rightComplete : (right.result environment).1.isOk = true) :
    left.html environment = right.html environment := by
  have alone := answersBy.leavesAlone
  obtain ⟨leftOpened, document, leftOpens⟩ := exists_opened leftComplete
  obtain ⟨rightOpened, other, rightOpens⟩ := exists_opened rightComplete
  have leftReads := (leftShows.loadSource leftSound.met.found
    leftSound.met.isDocument).trans (of_opened leftOpens).1
  have rightReads := (rightShows.loadSource rightSound.met.found
    rightSound.met.isDocument).trans (of_opened rightOpens).1
  rw [source, rightReads] at leftReads
  obtain rfl := Except.ok.inj leftReads
  obtain ⟨leftBody, leftRendered, leftPage, leftWhole⟩ := html_of_opened leftOpens
  obtain ⟨rightBody, rightRendered, rightPage, rightWhole⟩ :=
    html_of_opened rightOpens
  have leftDone := leftWhole.mp leftComplete
  have rightDone := rightWhole.mp rightComplete
  have same : SameHtml leftBody rightBody := by
    rw [leftRendered, rightRendered]
    refine pairing_sameHtml.paragraphs
      (Site.ofPage environment left.depth left.context leftOpened)
      (Site.ofPage environment right.depth right.context rightOpened) trivial ?_
    intro inner member otherVisit otherMember block _
    have innerMember : inner ∈ left.visits environment := by
      rwa [visits, leftOpens]
    have otherInside : otherVisit ∈ right.visits environment := by
      rwa [visits, rightOpens]
    refine (Visit.mirrors_of_shows (.refl disk) block ?_
      (leftSound.shows alone leftShows innerMember)
      (rightSound.shows alone rightShows otherInside)
      (leftSound.finds.single (.start innerMember))
      (rightSound.finds.single (.start otherInside))).sameHtml answersBy
    rw [(mem_visits innerMember).2, (mem_visits otherInside).2, context, context,
      source]
  rw [leftPage, rightPage, leftDone, rightDone, same leftDone rightDone,
    html_pageHead, html_pageHead]

/-! ## Calls in order -/

/-- A call that makes the page of a document, maybe with nothing compiled before. -/
structure Call where
  path : Path
  renewed : Bool
  deriving DecidableEq

/-- The session that a call starts with. -/
def Call.start (call : Call) (session : Session) : Session :=
  if call.renewed then { session with compiled := [] } else session

/-- The session after calls. -/
def afterCalls (environment : Environment) : List Call → Session → Session
  | [], session => session
  | call :: others, session =>
      afterCalls environment others
        (compileFile environment call.path (call.start session)).2

/-- All calls complete, and find only documents. -/
def AllComplete (environment : Environment) : List Call → Session → Prop
  | [], _ => True
  | call :: others, session =>
      let start := call.start session
      (compileFile environment call.path start).1.isOk = true ∧
        (∀ called, called? call.path start = some called →
          called.IsSound environment) ∧
        AllComplete environment others (compileFile environment call.path start).2

/-- Whether all calls complete and find only documents, where visits are followed up to
a depth. -/
def completes
    (environment : Environment)
    (depth : Nat) : List Call → Session → Bool
  | [], _ => true
  | call :: others, session =>
      let start := call.start session
      let made := compileFile environment call.path start
      made.1.isOk &&
        (called? call.path start).all (Compilation.checks environment depth) &&
        completes environment depth others made.2

theorem allComplete_of_completes
    {environment : Environment}
    {depth : Nat}
    {calls : List Call}
    {session : Session}
    (checked : completes environment depth calls session = true) :
    AllComplete environment calls session := by
  induction calls generalizing session with
  | nil => trivial
  | cons call others inductionHypothesis =>
      rw [completes, Bool.and_eq_true, Bool.and_eq_true] at checked
      obtain ⟨⟨complete, sound⟩, later⟩ := checked
      refine ⟨complete, fun called named => ?_, inductionHypothesis later⟩
      rw [named] at sound
      exact Compilation.isSound_of_checks sound

/-- A document that can be reached by links from one that is called. -/
def ReachedBy
    (environment : Environment)
    (disk : Disk)
    (calls : List Call)
    (source : Location) : Prop :=
  ∃ call ∈ calls, ∃ root, locateSource disk call.path = .ok root ∧
    ReflTransGen (LinksTo environment disk) root source

/-- The page of a document is there as a compilation that completed wrote it. -/
structure PageStands
    (environment : Environment)
    (disk : Disk)
    (session : Session)
    (source : Location)
    (page : Compilation) : Prop where
  same : page.source = source
  sound : page.IsSound environment
  shows : page.session.Shows disk
  complete : (page.result environment).1.isOk = true
  holds : session.disk.contentAt source.page =
    .ofText (Html.print (page.html environment))

/-- What calls leave behind that complete: the pages of the documents that can be
reached from them. Documents that are compiled link to compiled documents only. -/
structure Produces
    (environment : Environment)
    (disk : Disk)
    (calls : List Call)
    (session : Session) : Prop where
  tidy : session.IsTidy none
  shows : session.Shows disk
  closed : ∀ source ∈ session.compiled, ∀ linked,
    LinksTo environment disk source linked → linked ∈ session.compiled
  reached : ∀ source ∈ session.compiled, ReachedBy environment disk calls source
  made : ∀ source : Location, source.IsDocument →
    ReachedBy environment disk calls source →
    ∃ page, PageStands environment disk session source page
  kept : ∀ source : Location, source.IsDocument →
    ¬ReachedBy environment disk calls source →
    session.disk.contentAt source.page = disk.contentAt source.page

section Calls

variable
  {environment : Environment}
  {disk : Disk}
  {calls : List Call}
  {session : Session}

theorem ReachedBy.mono
    {others : List Call}
    {source : Location}
    (reached : ReachedBy environment disk calls source)
    (among : ∀ call ∈ calls, call ∈ others) :
    ReachedBy environment disk others source := by
  obtain ⟨call, member, reaches⟩ := reached
  exact ⟨call, among call member, reaches⟩

theorem produces_nil
    (orderly : disk.IsOrderly) :
    Produces environment disk [] { disk := disk } := by
  have tidy : Session.IsTidy none { disk := disk } :=
    Session.isTidy_of_idle orderly rfl
  exact ⟨tidy, tidy.shows, List.forall_mem_nil _, List.forall_mem_nil _,
    fun _ _ ⟨_, absent, _⟩ => absurd absent List.not_mem_nil, fun _ _ _ => rfl⟩

/-- Starting with nothing compiled. -/
theorem Produces.start
    (produced : Produces environment disk calls session)
    (call : Call) :
    Produces environment disk calls (call.start session) := by
  rw [Call.start]
  split
  · have tidy : Session.IsTidy none { session with compiled := [] } :=
      Session.isTidy_of_idle produced.tidy.orderly (produced.tidy.idle rfl)
    refine ⟨tidy, ⟨⟨none, tidy⟩, produced.shows.grows⟩, List.forall_mem_nil _,
      List.forall_mem_nil _, fun source isDocument reached => ?_, produced.kept⟩
    obtain ⟨page, stands⟩ := produced.made source isDocument reached
    exact ⟨page, stands.same, stands.sound, stands.shows, stands.complete,
      stands.holds⟩
  · exact produced

/-- A page that is not made stays as it is. -/
theorem Ran.contentAt_of_not_mem
    {first : Compilation}
    {last : Session}
    (ran : Ran environment none first.session [] (first.started environment) last)
    (sound : first.IsSound environment)
    {source : Location}
    (isDocument : source.IsDocument)
    (absent : source ∉ sourcesOf (first.started environment)) :
    last.disk.contentAt source.page =
      first.session.disk.contentAt source.page := by
  refine ran.grows.contentAt fun touched => ?_
  rcases touched.page isDocument_of_unowned sound.isMet isDocument with
    none | ⟨other, member, same, _⟩
  · cases none
  · exact absent (List.mem_map.mpr ⟨other, member, same⟩)

variable
  (alone : LeavesAlone environment.machine)
  (orderly : disk.IsOrderly)

include alone orderly

/-- A compilation that completes makes the pages of what it reaches and was not compiled
before. -/
theorem Produces.compile
    {first : Compilation}
    (produced : Produces environment disk calls first.session)
    (sound : first.IsSound environment)
    (complete : (first.result environment).1.isOk = true)
    {call : Call}
    (root : locateSource disk call.path = .ok first.source) :
    Produces environment disk (calls ++ [call]) (first.result environment).2 := by
  have shows := produced.shows
  have ran := first.ran alone produced.tidy sound.isMet
  have compiled := (first.remains alone produced.tidy sound).compiled
  have started : ∀ page ∈ first.started environment,
      ReachedBy environment disk (calls ++ [call]) page.source :=
    fun page member => ⟨call, List.mem_append_right _ List.mem_cons_self,
      first.source, root,
      (opened_of_mem_started member).reachable alone sound shows orderly⟩
  have older : ∀ {source}, ReachedBy environment disk calls source →
      ReachedBy environment disk (calls ++ [call]) source :=
    fun reached => reached.mono fun _ => List.mem_append_left _
  -- Nothing that is compiled links to anything that is not.
  have closed : ∀ source ∈ (first.result environment).2.compiled, ∀ linked,
      LinksTo environment disk source linked →
      linked ∈ (first.result environment).2.compiled := by
    intro source member linked links
    rcases (compiled source).mp member with before | new
    · exact (compiled linked).mpr (.inl (produced.closed source before linked links))
    · obtain ⟨page, among, rfl⟩ := List.mem_map.mp new
      exact (opened_of_mem_started among).mem_of_linksTo alone sound shows orderly
        complete links
  refine ⟨ran.tidy, ran.shows produced.tidy shows.grows sound.isMet, closed, ?_, ?_,
    ?_⟩
  · intro source member
    rcases (compiled source).mp member with before | new
    · exact older (produced.reached source before)
    · obtain ⟨page, among, rfl⟩ := List.mem_map.mp new
      exact started page among
  · intro source isDocument reached
    -- The page was made by this call or by one before it, which this call did not
    -- touch.
    by_cases member : source ∈ sourcesOf (first.started environment)
    · obtain ⟨page, among, rfl⟩ := List.mem_map.mp member
      have opened := opened_of_mem_started among
      obtain ⟨pageSound, pageShows⟩ := opened.isSound_and_shows alone sound shows
      have whole := opened.isOk complete
      obtain ⟨_, _, opens⟩ := Compilation.exists_opened whole
      exact ⟨page, rfl, pageSound, pageShows, whole,
        ran.pages page among (by rw [opens]; rfl)⟩
    · have before : ReachedBy environment disk calls source := by
        obtain ⟨other, among, start, located, reaches⟩ := reached
        rcases List.mem_append.mp among with old | new
        · exact ⟨other, old, start, located, reaches⟩
        · rw [List.mem_singleton.mp new, root] at located
          obtain rfl := Except.ok.inj located
          have last : source ∈ (first.result environment).2.compiled := by
            clear member isDocument
            induction reaches with
            | refl => exact Opened.start.mem_compiled
            | tail _ links inductionHypothesis =>
                exact closed _ inductionHypothesis _ links
          exact produced.reached source
            (((compiled source).mp last).resolve_right member)
      obtain ⟨page, stands⟩ := produced.made source isDocument before
      exact ⟨page, stands.same, stands.sound, stands.shows, stands.complete,
        (ran.contentAt_of_not_mem sound isDocument member).trans stands.holds⟩
  · intro source isDocument unreached
    have absent : source ∉ sourcesOf (first.started environment) := by
      intro member
      obtain ⟨page, among, rfl⟩ := List.mem_map.mp member
      exact unreached (started page among)
    exact (ran.contentAt_of_not_mem sound isDocument absent).trans
      (produced.kept source isDocument fun reached => unreached (older reached))

theorem Produces.afterCalls
    {others : List Call}
    (produced : Produces environment disk calls session)
    (complete : AllComplete environment others session) :
    Produces environment disk (calls ++ others)
      (afterCalls environment others session) := by
  induction others generalizing calls session with
  | nil =>
      rw [List.append_nil]
      exact produced
  | cons call others inductionHypothesis =>
      obtain ⟨here, sound, later⟩ := complete
      obtain ⟨first, named⟩ := exists_called here
      obtain ⟨same, results⟩ := @compileFile_of_called environment _ _ _ named
      have isSound := sound first named
      have starts := produced.start call
      have located := starts.shows.alike.symm.locateSource (located_of_called named)
        isSound.met.isDocument.not_isOutput
      rw [results] at here later
      rw [← same] at starts
      have made := starts.compile alone orderly isSound here located
      rw [List.append_cons, Page.afterCalls, results]
      exact inductionHypothesis made later

end Calls

/-! ## Independence -/

/-- What is rendered does not depend on what happened before. -/
structure Independent (environment : Environment) : Prop where
  /-- Sessions may differ in what is compiled, and contexts in the documents around. -/
  states : ∀ (document : Document) (left right : Rendering),
    left.IsSound environment document → right.IsSound environment document →
    left.context.base = right.context.base →
    Disk.Alike left.session.disk right.session.disk →
    (left.outcome environment document).failure = none →
    (right.outcome environment document).failure = none →
    (left.outcome environment document).html =
      (right.outcome environment document).html
  again : ∀ (document : Document) (first : Rendering),
    first.IsSound environment document →
    (first.outcome environment document).failure = none →
    let second : Rendering :=
      { first with session := (first.outcome environment document).session }
    FindsDocuments environment (second.visits environment document) →
    (second.outcome environment document).failure = none ∧
      (second.outcome environment document).html =
        (first.outcome environment document).html
  orders : ∀ (disk : Disk) (left right : List Call), disk.IsOrderly →
    (left.map Call.path).Perm (right.map Call.path) →
    AllComplete environment left { disk := disk } →
    AllComplete environment right { disk := disk } →
    ∀ source : Location, source.IsDocument →
      (afterCalls environment left { disk := disk }).disk.contentAt source.page =
        (afterCalls environment right { disk := disk }).disk.contentAt source.page

theorem ReachedBy.of_perm
    {environment : Environment}
    {disk : Disk}
    {left right : List Call}
    (same : (left.map Call.path).Perm (right.map Call.path))
    {source : Location}
    (reached : ReachedBy environment disk left source) :
    ReachedBy environment disk right source := by
  obtain ⟨call, member, root, located, reaches⟩ := reached
  obtain ⟨other, among, path⟩ :=
    List.mem_map.mp (same.mem_iff.mp (List.mem_map_of_mem member))
  exact ⟨other, among, root, by rw [path]; exact located, reaches⟩

/-- With code whose answers depend on nothing else and that leaves disks alone, what is
rendered does not depend on history. -/
theorem rendering_independent
    {environment : Environment}
    {answers : CodeCall → Except ExecutionError String}
    (answersBy : AnswersBy environment.machine answers) :
    Independent environment where
  states := fun document left right leftSound rightSound base alike =>
    Rendering.sameHtml_outcome answersBy leftSound rightSound base alike
  again := fun document first sound complete finds =>
    Rendering.complete_again answersBy sound complete finds
  orders := by
    intro disk left right orderly same leftComplete rightComplete source isDocument
    have alone := answersBy.leavesAlone
    have leftMade := (produces_nil orderly).afterCalls alone orderly leftComplete
    have rightMade := (produces_nil orderly).afterCalls alone orderly rightComplete
    rw [List.nil_append] at leftMade rightMade
    by_cases reached : ReachedBy environment disk left source
    · obtain ⟨leftPage, leftStands⟩ := leftMade.made source isDocument reached
      obtain ⟨rightPage, rightStands⟩ :=
        rightMade.made source isDocument (reached.of_perm same)
      rw [leftStands.holds, rightStands.holds, Compilation.html_eq answersBy
        (leftStands.same.trans rightStands.same.symm) leftStands.sound
        rightStands.sound leftStands.shows rightStands.shows leftStands.complete
        rightStands.complete]
    · rw [leftMade.kept source isDocument reached, rightMade.kept source isDocument
        fun again => reached (again.of_perm same.symm)]

/-- A document with a link is rendered, again, and once more inside another one. The
pages that are made for it are the same when they are made in another order. -/
theorem rendering_independent_linked :
    let environment : Environment := ⟨{}, fun disk _ call => (.ok call.code, disk)⟩
    let disk : Disk :=
      { entries :=
          [(["notes"], .directory), (["notes", "a.scrip"], .file 0),
            (["notes", "b.scrip"], .file 1)]
        nodes :=
          #[{ content := .ofText "#Link\x7bb.scrip\x7d" },
            { content := .ofText "b" }]
        workingDirectory := ["notes"] }
    let document : Document := [[.hashtag ⟨"Link", ["a.scrip"]⟩]]
    let first : Rendering := ⟨⟨⟨"/notes"⟩, []⟩, { disk := disk }⟩
    let second : Rendering :=
      { first with session := (first.outcome environment document).session }
    let third : Rendering :=
      { second with context := ⟨⟨"/notes"⟩, [⟨"/notes/c.scrip"⟩]⟩ }
    let calls : List Call := [⟨⟨"a.scrip"⟩, false⟩, ⟨⟨"b.scrip"⟩, true⟩]
    AnswersBy environment.machine (fun call => .ok call.code) ∧
      first.IsSound environment document ∧ third.IsSound environment document ∧
      AllComplete environment calls { disk := disk } ∧
      AllComplete environment calls.reverse { disk := disk } ∧
      (second.outcome environment document).html =
        (first.outcome environment document).html ∧
      (third.outcome environment document).html =
        (first.outcome environment document).html ∧
      ∀ source : Location, source.IsDocument →
        (afterCalls environment calls { disk := disk }).disk.contentAt
            source.page =
          (afterCalls environment calls.reverse { disk := disk }).disk.contentAt
            source.page := by
  intro environment disk document first second third calls
  have answersBy : AnswersBy environment.machine (fun call => .ok call.code) :=
    fun _ _ _ => rfl
  have orderly : disk.IsOrderly := by decide +kernel
  have evaluated :
      onlyDocuments environment 3 (first.visits environment document) = true ∧
        onlyDocuments environment 3 (second.visits environment document) = true ∧
        onlyDocuments environment 3 (third.visits environment document) = true ∧
        (first.outcome environment document).failure = none ∧
        (third.outcome environment document).failure = none := by
    decide +kernel
  have complete : completes environment 3 calls { disk := disk } = true ∧
      completes environment 3 calls.reverse { disk := disk } = true := by
    decide +kernel
  obtain ⟨firstFinds, secondFinds, thirdFinds, firstDone, thirdDone⟩ := evaluated
  have independent := @rendering_independent environment _ answersBy
  have firstSound : first.IsSound environment document :=
    ⟨orderly, rfl, findsDocuments_of_onlyDocuments firstFinds⟩
  obtain ⟨after, idle⟩ := firstSound.shows_after answersBy.leavesAlone
  have thirdSound : third.IsSound environment document :=
    ⟨after.grows.orderly, idle, findsDocuments_of_onlyDocuments thirdFinds⟩
  refine ⟨answersBy, firstSound, thirdSound, allComplete_of_completes complete.1,
    allComplete_of_completes complete.2, ?_, ?_, ?_⟩
  · exact (independent.again document first firstSound firstDone
      (findsDocuments_of_onlyDocuments secondFinds)).2
  · exact independent.states document third first thirdSound firstSound rfl
      after.alike.symm thirdDone firstDone
  · exact independent.orders disk calls calls.reverse orderly
      ((calls.reverse_perm.map Call.path).symm)
      (allComplete_of_completes complete.1) (allComplete_of_completes complete.2)

/-- What is rendered changes when the stylesheet that is put beside a page goes through a
link or another name into a document, or when code that runs changes a document. -/
theorem rendering_changed :
    let disk : List (Location × Entry) → Disk := fun entries =>
      { entries :=
          [(["notes"], .directory), (["notes", "a.scrip"], .file 0),
            (["notes", "c.scrip"], .file 1), (["notes", "style"], .file 2)] ++
          entries
        nodes :=
          #[{ content := .ofText "```sh\n:\n```" }, { content := .ofText "c" },
            { content := .ofText "d" }]
        workingDirectory := ["notes"] }
    let idle : Machine := fun disk _ _ => (.ok "", disk)
    let writes : Machine := fun disk _ _ =>
      (.ok "", disk.writeAt (some 1) 0 "d".toUTF8)
    let changes : List (Disk × Machine) :=
      [(disk [(["notes", "scrip.css"], .link "c.scrip")], idle),
        (disk [(["notes", "scrip.css"], .file 1)], idle), (disk [], writes)]
    let document : Document :=
      [[.hashtag ⟨"Nested", ["c.scrip"]⟩, .hashtag ⟨"Link", ["a.scrip"]⟩]]
    ∀ change ∈ changes,
      let environment : Environment :=
        ⟨{ stylesheet := some ⟨"/notes/style"⟩ }, change.2⟩
      let first : Rendering := ⟨⟨⟨"/notes"⟩, []⟩, { disk := change.1 }⟩
      let second : Rendering :=
        { first with session := (first.outcome environment document).session }
      (∀ disk index call, (change.2 disk index call).1 = .ok "") ∧
        FindsDocuments environment (first.visits environment document) ∧
        FindsDocuments environment (second.visits environment document) ∧
        (first.outcome environment document).failure = none ∧
        (second.outcome environment document).failure = none ∧
        (first.outcome environment document).html ≠
          (second.outcome environment document).html := by
  intro disk idle writes changes document change member
  have answers : ∀ change ∈ changes, ∀ disk index call,
      (change.2 disk index call).1 = .ok "" := by
    simp [changes, idle, writes]
  have evaluated : ∀ change ∈ changes,
      let environment : Environment :=
        ⟨{ stylesheet := some ⟨"/notes/style"⟩ }, change.2⟩
      let first : Rendering := ⟨⟨⟨"/notes"⟩, []⟩, { disk := change.1 }⟩
      let second : Rendering :=
        { first with session := (first.outcome environment document).session }
      onlyDocuments environment 3 (first.visits environment document) = true ∧
        onlyDocuments environment 3 (second.visits environment document) = true ∧
        (first.outcome environment document).failure = none ∧
        (second.outcome environment document).failure = none ∧
        (first.outcome environment document).html ≠
          (second.outcome environment document).html := by
    decide +kernel
  obtain ⟨firstFinds, secondFinds, rest⟩ := evaluated change member
  exact ⟨answers change member, findsDocuments_of_onlyDocuments firstFinds,
    findsDocuments_of_onlyDocuments secondFinds, rest⟩

end Page
end NotePress
