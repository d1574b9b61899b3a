import NotePress.Proofs.Page.Answers
import NotePress.Proofs.Page.Frame
import NotePress.Proofs.Page.Order

/-!
# What code cannot change

Whatever code that leaves the disk alone answers, a document is rendered to the same end:
the same code runs in the same order, the same error stops the run or none does, and
what is written is the same but for the listings of the answers. This holds for what is
rendered, for the pages that are made on the way, and for every other file.
-/

namespace NotePress
namespace Page

open Html (Piece)

/-- What a place holds after two runs, given the compilations in them. -/
inductive SameFile
    (left right : Environment)
    (first : Disk)
    (started : List Compilation)
    (leftLast rightLast : Disk)
    (location : Location) : Prop
  | same (content : leftLast.contentAt location = rightLast.contentAt location)
  /-- A page shows the answers to the code in it. -/
  | page
      {compilation : Compilation}
      {leftHtml rightHtml : List Piece}
      (member : compilation ∈ started)
      (place : location = compilation.source.page)
      (leftHolds : leftLast.contentAt location = .ofText (Html.print leftHtml))
      (rightHolds : rightLast.contentAt location = .ofText (Html.print rightHtml))
      (html : SameButAnswers left right
        (callsMet left false (compilation.visits left)) leftHtml rightHtml)
  /-- A stylesheet is copied from a page. -/
  | stylesheet
      {compilation : Compilation}
      {path : Path}
      {page : Location}
      (member : compilation ∈ started)
      (place : location = compilation.source.stylesheet)
      (configured : left.options.stylesheet = some path)
      (located : first.locate path = .ok page)
      (isPage : page.extension? = some Target.pageExtension.toList)

/-- What two runs of the same visits have in common: the code that ran, which is that of
the code blocks that are met in turn, and what is on the disk. -/
structure SameRun
    (left right : Environment)
    (first : Session)
    (visits : List Visit)
    (started : List Compilation)
    (leftLast rightLast : Session) : Prop where
  order : GoesInTurn left visits
  calls : leftLast.calls = first.calls ++ callsMet left true visits
  sameCalls : rightLast.calls = leftLast.calls
  sameCompiled : rightLast.compiled = leftLast.compiled
  entries : rightLast.disk.entries = leftLast.disk.entries
  files : ∀ location, SameFile left right first.disk started leftLast.disk
    rightLast.disk location

/-- What two renders of a document write, besides what their runs have in common. The
visits take up the blocks of the document in turn. -/
structure SameOutcome
    (left right : Environment)
    (first : Session)
    (document : Document)
    (visits : List Visit)
    (leftOutcome rightOutcome : Outcome) : Prop where
  order : TakesInTurn visits document.flatten leftOutcome.failure
  failure : leftOutcome.failure = rightOutcome.failure
  html : SameButAnswers left right (callsMet left false visits) leftOutcome.html
    rightOutcome.html
  run : SameRun left right first visits (visits.flatMap (Visit.started left))
    leftOutcome.session rightOutcome.session

/-- The visits in the page around a document. -/
def Rendering.pageVisits
    (environment : Environment)
    (document : Document)
    (rendering : Rendering) : List Visit :=
  (Site.ofPage environment (depthBound rendering.session.disk) rendering.context
    rendering.session).paragraphs environment document

/-- The visits in the page that a call makes. -/
def visitsBy
    (environment : Environment)
    (path : Path)
    (session : Session) : List Visit :=
  (called? path session).toList.flatMap (Compilation.visits environment)

/-- Runs of two machines are told apart by nothing but the answers they list. -/
structure Unsteered (left right : Environment) : Prop where
  documents : ∀ document (rendering : Rendering),
    rendering.IsSound left document →
    SameOutcome left right rendering.session document
      (rendering.visits left document) (rendering.outcome left document)
      (rendering.outcome right document)
  pages : ∀ document (rendering : Rendering),
    rendering.session.disk.IsOrderly →
    rendering.session.page = none →
    FindsDocuments left (rendering.pageVisits left document) →
    SameOutcome left right rendering.session document
      (rendering.pageVisits left document)
      (renderPage left rendering.context document rendering.session)
      (renderPage right rendering.context document rendering.session)
  files : ∀ path (session : Session),
    session.disk.IsOrderly →
    session.page = none →
    (∀ compilation ∈ called? path session, compilation.IsSound left) →
    (∀ compilation ∈ called? path session,
        TakesInTurn (compilation.visits left) (compilation.blocks left)
          (compilation.failure? left)) ∧
      (compileFile left path session).1 = (compileFile right path session).1 ∧
      SameRun left right session (visitsBy left path session)
        (startedBy left path session) (compileFile left path session).2
        (compileFile right path session).2

section Runs

variable
  {left right : Environment}
  {leftStarted rightStarted : List Compilation}

theorem exists_of_mem_left
    {Left Right : Type}
    {related : Left → Right → Prop}
    {lefts : List Left}
    {rights : List Right}
    (each : List.Forall₂ related lefts rights)
    {first : Left}
    (member : first ∈ lefts) :
    ∃ second ∈ rights, related first second := by
  induction each with
  | nil => cases member
  | cons same _ inductionHypothesis =>
      rcases List.mem_cons.mp member with rfl | later
      · exact ⟨_, List.mem_cons_self, same⟩
      · obtain ⟨second, among, same⟩ := inductionHypothesis later
        exact ⟨second, List.mem_cons_of_mem _ among, same⟩

/-- The same places are written to on both sides. -/
theorem touched_of_same
    (same : List.Forall₂ (Compilation.SamePage left right) leftStarted rightStarted)
    {location : Location}
    (touched : Touched right none rightStarted location) :
    Touched left none leftStarted location := by
  rcases touched with ⟨_, absent, _⟩ | ⟨compilation, member, place⟩
  · cases absent
  · obtain ⟨partner, among, alike⟩ := exists_of_mem_left same.flip member
    refine .inr ⟨partner, among, ?_⟩
    rw [alike.source, alike.opened]
    exact place

/-- What a place holds after two runs, in which the same compilations are made. -/
theorem sameFile_of_ran
    {first leftLast rightLast : Session}
    {leftHtml rightHtml : List Piece}
    (leftRan : Ran left none first leftHtml leftStarted leftLast)
    (rightRan : Ran right none first rightHtml rightStarted rightLast)
    (same : List.Forall₂ (Compilation.SamePage left right) leftStarted rightStarted)
    (twins : leftLast.Twins (MayShowCode left.options first.disk) rightLast)
    (location : Location) :
    SameFile left right first.disk leftStarted leftLast.disk rightLast.disk
      location := by
  by_cases shows : MayShowCode left.options first.disk location
  · by_cases touched : Touched left none leftStarted location
    · rcases touched with
        ⟨_, absent, _⟩ | ⟨compilation, member, beside | ⟨place, opened⟩⟩
      · cases absent
      · rcases shows.2 with isPage | ⟨path, page, configured, located, isPage⟩
        · rw [beside, Location.stylesheet, Location.extension_concat] at isPage
          exact absurd isPage (by decide)
        · exact .stylesheet member beside configured located isPage
      · obtain ⟨partner, among, alike⟩ := exists_of_mem_left same member
        have partnerOpened := alike.opened.symm.trans opened
        refine .page member place ?_ ?_ alike.html
        · rw [place]
          exact leftRan.pages compilation member opened
        · rw [place, alike.source]
          exact rightRan.pages partner among partnerOpened
    · refine .same ?_
      rw [leftRan.grows.contentAt touched,
        rightRan.grows.contentAt fun other => touched (touched_of_same same other)]
  · exact .same (twins.disk.contentAt shows)

/-- The compilations on the other side are of documents as well. -/
theorem isMet_of_same
    (same : List.Forall₂ (Compilation.SamePage left right) leftStarted rightStarted)
    (met : ∀ compilation ∈ leftStarted, compilation.IsMet)
    {compilation : Compilation}
    (member : compilation ∈ rightStarted)
    (isFound : compilation.IsFound) :
    compilation.IsMet := by
  obtain ⟨partner, among, alike⟩ := exists_of_mem_left same.flip member
  have isDocument := (met partner among).isDocument
  rw [alike.source] at isDocument
  exact ⟨isDocument, isFound⟩

variable
  (options : left.options = right.options)
  (leftAlone : LeavesAlone left.machine)
  (rightAlone : LeavesAlone right.machine)
  {session : Session}
  (orderly : session.disk.IsOrderly)
  (idle : session.page = none)

include leftAlone rightAlone orderly idle

/-- Runs of the same course that start without an open page. -/
theorem SameCourse.sameOutcome
    {visits rightVisits : List Visit}
    {leftOutcome rightOutcome : Outcome}
    (course : SameCourse left right session.disk visits rightVisits leftOutcome
      rightOutcome)
    {document : Document}
    (order : TakesInTurn visits document.flatten leftOutcome.failure)
    (finds : FindsDocuments left visits)
    (leftCourse : Course left session visits leftOutcome.html leftOutcome.session)
    (rightCourse : Course right session rightVisits rightOutcome.html
      rightOutcome.session)
    (calls : leftOutcome.session.calls =
      session.calls ++ callsMet left true visits) :
    SameOutcome left right session document visits leftOutcome rightOutcome := by
  have tidy : session.IsTidy none := Session.isTidy_of_idle orderly idle
  have met : ∀ compilation ∈ visits.flatMap (Visit.started left), compilation.IsMet :=
    fun _ => finds.isMet_of_mem
  have leftRan := leftCourse.runs.ran leftAlone tidy met (allFresh_started _)
  have rightRan := rightCourse.runs.ran rightAlone tidy
    (fun compilation member => by
      obtain ⟨visit, _, started⟩ := List.mem_flatMap.mp member
      exact isMet_of_same course.started met member
        (visit.isFound_of_mem_started started))
    (allFresh_started _)
  have twins := course.sideBySide.twins
  exact ⟨order, course.failure, course.html, goesInTurn _, calls, twins.calls.symm,
    twins.compiled.symm, twins.disk.entries.symm,
    sameFile_of_ran leftRan rightRan course.started twins⟩

include options

omit orderly idle in
/-- The visits in one document go on in step. -/
theorem inStep_paragraphs
    {disk : Disk}
    {document : Document}
    {site other : Site}
    (depth : site.depth = other.depth)
    (context : site.context = other.context)
    (finds : FindsDocuments left (site.paragraphs left document)) :
    InStep (Session.SideBySide left.options disk) (SameCourse left right disk)
      left right (site.paragraphs left document) (other.paragraphs right document) := by
  intro visit member partner partnerMember same start
  refine Visit.SideBySide.sameCourse options leftAlone rightAlone
    ⟨same, ?_, ?_, start⟩ (finds.single (.start member))
  all_goals
    obtain ⟨_, _, _, _, _, rfl⟩ := Site.mem_paragraphs member
    obtain ⟨_, _, _, _, _, rfl⟩ := Site.mem_paragraphs partnerMember
    assumption

/-- A document is rendered to the same outcome but for the answers. -/
theorem sameOutcome_renderDocument
    {context : Context}
    {document : Document}
    (finds : FindsDocuments left
      ((Site.ofDocument context session).paragraphs left document)) :
    SameOutcome left right session document
      ((Site.ofDocument context session).paragraphs left document)
      (renderDocument left context document session)
      (renderDocument right context document session) := by
  have start : session.SideBySide left.options session.disk session :=
    ⟨(Session.isTidy_of_idle orderly idle).shows, .refl session⟩
  have course := lockstep_sameCourse.paragraphs (Site.ofDocument context session)
    (Site.ofDocument context session) start
    (inStep_paragraphs options leftAlone rightAlone rfl rfl finds)
  exact course.sameOutcome leftAlone rightAlone orderly idle
    (.paragraphs left (Site.ofDocument context session) document) finds
    (compositional_course.paragraphs (Site.ofDocument context session)
      fun visit _ => visit.course.single)
    (compositional_course.paragraphs (Site.ofDocument context session)
      fun visit _ => visit.course.single)
    (compositional_calls.paragraphs (Site.ofDocument context session)
      fun visit _ => visit.calls)

/-- A page is rendered to the same outcome but for the answers. -/
theorem sameOutcome_renderPage
    {context : Context}
    {document : Document}
    (finds : FindsDocuments left
      ((Site.ofPage left (depthBound session.disk) context session).paragraphs left
        document)) :
    SameOutcome left right session document
      ((Site.ofPage left (depthBound session.disk) context session).paragraphs left
        document)
      (renderPage left context document session)
      (renderPage right context document session) := by
  have start : session.SideBySide left.options session.disk session :=
    ⟨(Session.isTidy_of_idle orderly idle).shows, .refl session⟩
  have course := lockstep_sameCourse.envelope options start fun inside =>
    lockstep_sameCourse.paragraphs
      (Site.ofPage left (depthBound session.disk) context session)
      (Site.ofPage right (depthBound session.disk) context session) inside
      (inStep_paragraphs options leftAlone rightAlone rfl rfl finds)
  exact course.sameOutcome leftAlone rightAlone orderly idle
    (takesInTurn_renderEnvelope _ _ _ _) finds
    (course_renderEnvelope fun visit _ => visit.course)
    (course_renderEnvelope fun visit _ => visit.course)
    (calls_renderEnvelope fun visit _ => visit.calls)

/-- A call makes the same pages but for the answers. -/
theorem sameRun_compileFile
    {path : Path}
    (sound : ∀ compilation ∈ called? path session, compilation.IsSound left) :
    (compileFile left path session).1 = (compileFile right path session).1 ∧
      SameRun left right session (visitsBy left path session)
        (startedBy left path session) (compileFile left path session).2
        (compileFile right path session).2 := by
  have tidy : session.IsTidy none := Session.isTidy_of_idle orderly idle
  rw [visitsBy, startedBy]
  cases calls : called? path session with
  | none =>
      rw [called?] at calls
      split at calls
      next error lost =>
        rw [compileFile, compileFile, lost]
        exact ⟨rfl, goesInTurn _, (List.append_nil _).symm, rfl, rfl, rfl,
          fun _ => .same rfl⟩
      next => cases calls
  | some compilation =>
      have sound := sound compilation calls
      obtain ⟨same, leftResults⟩ := @compileFile_of_called left _ _ _ calls
      obtain ⟨_, rightResults⟩ := @compileFile_of_called right _ _ _ calls
      rw [Option.toList_some, List.flatMap_singleton, List.flatMap_singleton,
        leftResults, rightResults, ← same]
      rw [← same] at tidy
      -- Both calls start from the same session, so the visits in the two pages are side
      -- by side.
      have parts : InStep (Session.SideBySide left.options compilation.session.disk)
          (SameCourse left right compilation.session.disk) left right
          (compilation.visits left) (compilation.visits right) := by
        intro visit member partner partnerMember block start
        obtain ⟨depth, context⟩ := Compilation.mem_visits member
        obtain ⟨otherDepth, otherContext⟩ := Compilation.mem_visits partnerMember
        exact Visit.SideBySide.sameCourse options leftAlone rightAlone
          ⟨block, depth.trans otherDepth.symm, context.trans otherContext.symm, start⟩
          (sound.finds.single (.start member))
      have result := Compilation.sameResult options ⟨rfl, rfl, .refl _⟩ tidy.shows
        sound.met parts
      have twins := result.twins
      have leftRan := compilation.ran leftAlone tidy sound.isMet
      have rightRan := compilation.ran rightAlone tidy fun other member =>
        isMet_of_same result.started sound.isMet member (by
          rcases List.mem_cons.mp member with rfl | later
          · exact sound.met.found
          · obtain ⟨visit, _, started⟩ := List.mem_flatMap.mp later
            exact visit.isFound_of_mem_started started)
      exact ⟨result.answer, goesInTurn _,
        Compilation.calls_result fun visit _ => visit.calls, twins.calls.symm,
        twins.compiled.symm, twins.disk.entries.symm,
        sameFile_of_ran leftRan rightRan result.started twins⟩

end Runs

/-- Code that leaves disks alone does not steer a run. Whatever two machines answer, the
same code runs, which is that of the code blocks that are met, in order and up to the
first error; the same error stops the run or none does; and what is written differs at
most in the listings of the answers. -/
theorem code_does_not_steer
    {left right : Environment}
    (options : left.options = right.options)
    (leftAlone : LeavesAlone left.machine)
    (rightAlone : LeavesAlone right.machine) :
    Unsteered left right where
  documents := fun _ _ sound => sameOutcome_renderDocument options leftAlone
    rightAlone sound.orderly sound.idle sound.finds
  pages := fun _ _ orderly idle finds => sameOutcome_renderPage options leftAlone
    rightAlone orderly idle finds
  files := fun _ _ orderly idle sound =>
    ⟨fun compilation _ => compilation.takesInTurn,
      sameRun_compileFile options leftAlone rightAlone orderly idle sound⟩

/-- A document runs code itself, in a document that it links to and in one that it nests.
One machine answers each code, the other one ends in no time. -/
theorem code_does_not_steer_nested :
    let left : Environment := ⟨{}, fun disk _ call => (.ok call.code, disk)⟩
    let right : Environment :=
      ⟨{}, fun disk _ call => (.error (.timeout call.command 0), disk)⟩
    let disk : Disk :=
      { entries :=
          [(["notes"], .directory), (["notes", "b.scrip"], .file 0),
            (["notes", "c.scrip"], .file 1)]
        nodes :=
          #[{ content := .ofText "```sh\n2\n```" },
            { content := .ofText "```py\n3\n```" }]
        workingDirectory := ["notes"] }
    let document : Document :=
      [[.codeBlock ⟨"sh", ["1"]⟩, .hashtag ⟨"Link", ["b.scrip"]⟩,
        .hashtag ⟨"Nested", ["c.scrip"]⟩]]
    let rendering : Rendering := ⟨⟨⟨"/notes"⟩, []⟩, { disk := disk }⟩
    let visits := rendering.visits left document
    left.options = right.options ∧ LeavesAlone left.machine ∧
      LeavesAlone right.machine ∧ rendering.IsSound left document ∧
      callsMet left true visits = [⟨"sh", "1"⟩, ⟨"sh", "2"⟩, ⟨"py", "3"⟩] ∧
      (rendering.outcome right document).failure = none ∧
      (rendering.outcome right document).session.calls = callsMet left true visits ∧
      SameButAnswers left right (callsMet left false visits)
        (rendering.outcome left document).html
        (rendering.outcome right document).html := by
  intro left right disk document rendering visits
  have leftAlone : LeavesAlone left.machine := fun _ _ _ => rfl
  have rightAlone : LeavesAlone right.machine := fun _ _ _ => rfl
  have orderly : disk.IsOrderly := by decide +kernel
  have evaluated : onlyDocuments left 3 visits = true ∧
      (rendering.outcome left document).failure = none ∧
      (rendering.outcome left document).session.calls =
        [⟨"sh", "1"⟩, ⟨"sh", "2"⟩, ⟨"py", "3"⟩] := by
    decide +kernel
  obtain ⟨only, complete, calls⟩ := evaluated
  have sound : rendering.IsSound left document :=
    ⟨orderly, rfl, findsDocuments_of_onlyDocuments only⟩
  have same := (@code_does_not_steer left right rfl leftAlone rightAlone).documents
    document rendering sound
  exact ⟨rfl, leftAlone, rightAlone, sound, same.run.calls.symm.trans calls,
    same.failure.symm.trans complete,
    same.run.sameCalls.trans same.run.calls, same.html⟩

/-- Code steers a run when the page that shows its answers goes through a link into a
document that is nested later, and when it changes such a document itself. A stylesheet
that is copied from a page shows the answers in it. -/
theorem code_steers :
    let answering : String → Machine := fun output disk _ _ => (.ok output, disk)
    let writes : Machine := fun disk _ _ =>
      (.ok "", disk.writeAt (some 1) 0 "9999999999. d".toUTF8)
    let disk : List (Location × Entry) → Disk := fun entries =>
      { entries :=
          [(["notes"], .directory), (["notes", "b.scrip"], .file 0),
            (["notes", "c.scrip"], .file 1), (["notes", "d"], .directory),
            (["notes", "d", "e.scrip"], .file 2)] ++
          entries
        nodes :=
          #[{ content := .ofText "```sh\n:\n```" }, { content := .ofText "c" },
            { content := .ofText "" }]
        workingDirectory := ["notes"] }
    let link : String → Document.Block := fun target => .hashtag ⟨"Link", [target]⟩
    let nests : Document := [[link "b.scrip", .hashtag ⟨"Nested", ["c.scrip"]⟩]]
    let links : Document := [[link "b.scrip", link "d/e.scrip"]]
    let changes : List (Disk × Machine) :=
      [(disk [(["notes", "b.html"], .link "c.scrip")],
          answering "\n9999999999. d"),
        (disk [], writes)]
    (∀ change ∈ changes,
      let left : Environment := ⟨{ externalStylesheets := [] }, change.2⟩
      let right : Environment := ⟨{ externalStylesheets := [] }, answering ""⟩
      let rendering : Rendering := ⟨⟨⟨"/notes"⟩, []⟩, { disk := change.1 }⟩
      FindsDocuments left (rendering.visits left nests) ∧
        (rendering.outcome left nests).failure ≠
          (rendering.outcome right nests).failure) ∧
    let options : Options :=
      { stylesheet := some ⟨"/notes/b.html"⟩, externalStylesheets := [] }
    let rendering : Rendering := ⟨⟨⟨"/notes"⟩, []⟩, { disk := disk [] }⟩
    let left : Environment := ⟨options, answering ""⟩
    let right : Environment := ⟨options, answering "d"⟩
    FindsDocuments left (rendering.visits left links) ∧
      (rendering.outcome left links).session.disk.contentAt
          ["notes", "d", "scrip.css"] ≠
        (rendering.outcome right links).session.disk.contentAt
          ["notes", "d", "scrip.css"] := by
  intro answering writes disk link nests links changes
  refine ⟨fun change member => ?_, ?_⟩
  · have evaluated : ∀ change ∈ changes,
        let left : Environment := ⟨{ externalStylesheets := [] }, change.2⟩
        let right : Environment := ⟨{ externalStylesheets := [] }, answering ""⟩
        let rendering : Rendering := ⟨⟨⟨"/notes"⟩, []⟩, { disk := change.1 }⟩
        onlyDocuments left 2 (rendering.visits left nests) = true ∧
          (rendering.outcome left nests).failure ≠
            (rendering.outcome right nests).failure := by
      decide +kernel
    obtain ⟨only, differ⟩ := evaluated change member
    exact ⟨findsDocuments_of_onlyDocuments only, differ⟩
  · intro options rendering left right
    have evaluated :
        onlyDocuments left 2 (rendering.visits left links) = true ∧
          (rendering.outcome left links).session.disk.contentAt
              ["notes", "d", "scrip.css"] ≠
            (rendering.outcome right links).session.disk.contentAt
              ["notes", "d", "scrip.css"] := by
      decide +kernel
    exact ⟨findsDocuments_of_onlyDocuments evaluated.1, evaluated.2⟩

end Page
end NotePress
