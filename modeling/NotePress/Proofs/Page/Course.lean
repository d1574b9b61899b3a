import NotePress.Proofs.Page.Leaves

/-!
# The course of a run

A run goes from session to session. On the way it writes pieces into the page that is
open, runs code, and makes the pages of other documents, in each of which it goes on
in the same way. What a run writes and which compilations it starts, in order, are
told from the visits in it.
-/

namespace NotePress
namespace Page

open Html (Piece)
open Document (Block)

/-! ## Visits of a run -/

/-- The visits of a run that starts with some, those in the pages made on the way
among them. -/
inductive Occurs
    (environment : Environment)
    (first : List Visit) : Visit → Prop
  | start
      {visit : Visit}
      (member : visit ∈ first) : Occurs environment first visit
  | inside
      {outer inner : Visit}
      (occurs : Occurs environment first outer)
      (member : inner ∈ outer.inside environment) :
      Occurs environment first inner
  | linked
      {outer inner : Visit}
      {next : Compilation}
      (occurs : Occurs environment first outer)
      (starts : outer.starts? = some next)
      (member : inner ∈ next.visits environment) :
      Occurs environment first inner

/-- What occurs in visits that occur in a run occurs in the run. -/
theorem Occurs.trans
    {environment : Environment}
    {first later : List Visit}
    {visit : Visit}
    (among : ∀ start ∈ later, Occurs environment first start)
    (occurs : Occurs environment later visit) :
    Occurs environment first visit := by
  induction occurs with
  | start member => exact among _ member
  | inside _ member inductionHypothesis => exact .inside inductionHypothesis member
  | linked _ starts member inductionHypothesis =>
      exact .linked inductionHypothesis starts member

/-- What is reached in a page occurs in the run. -/
theorem Reached.occurs
    {environment : Environment}
    {visits : List Visit}
    {visit : Visit}
    (reached : Reached environment visits visit) :
    Occurs environment visits visit := by
  induction reached with
  | start member => exact .start member
  | inside _ member inductionHypothesis => exact .inside inductionHypothesis member

/-- The visits of a run are those in the pages of its compilations. -/
theorem exists_opened_of_occurs
    {environment : Environment}
    {first page : Compilation}
    {visit : Visit}
    (opened : Opened environment first page)
    (occurs : Occurs environment (page.visits environment) visit) :
    ∃ other, Opened environment first other ∧
      Reached environment (other.visits environment) visit := by
  induction occurs with
  | start member => exact ⟨page, opened, .start member⟩
  | inside _ member inductionHypothesis =>
      obtain ⟨other, opened, reached⟩ := inductionHypothesis
      exact ⟨other, opened, .inside reached member⟩
  | linked _ starts member inductionHypothesis =>
      obtain ⟨other, opened, reached⟩ := inductionHypothesis
      exact ⟨_, .link opened reached starts, .start member⟩

/-- What is reached in a page that a run opens occurs in the run. -/
theorem Opened.occurs
    {environment : Environment}
    {first page : Compilation}
    {visit : Visit}
    (opened : Opened environment first page)
    (reached : Reached environment (page.visits environment) visit) :
    Occurs environment (first.visits environment) visit := by
  induction opened generalizing visit with
  | start => exact reached.occurs
  | link _ linking starts inductionHypothesis =>
      exact reached.occurs.trans fun start member =>
        .linked (inductionHypothesis linking) starts member

/-! ## Compilations in order -/

/-- The compilations that are started during a visit, in order. -/
def Visit.started
    (environment : Environment)
    (visit : Visit) : List Compilation :=
  (match _ : visit.starts? with
    | none => []
    | some next =>
        next :: (next.visits environment).attach.flatMap
          fun ⟨found, _⟩ => found.started environment) ++
    (visit.inside environment).attach.flatMap
      fun ⟨inner, _⟩ => inner.started environment
termination_by (visit.depth, sizeOf visit.block)
decreasing_by
  · next starts member =>
      rw [(Compilation.mem_visits member).1]
      exact Prod.Lex.left _ _ (depth_of_starts starts)
  · next member =>
      rcases (Visit.mem_inside member).decreases with deeper | ⟨equal, smaller⟩
      · exact Prod.Lex.left _ _ deeper
      · rw [equal]
        exact Prod.Lex.right _ smaller

/-- A compilation and those that are started during it, in order. -/
def Compilation.started
    (environment : Environment)
    (compilation : Compilation) : List Compilation :=
  compilation ::
    (compilation.visits environment).flatMap (Visit.started environment)

/-- What a visit starts is what its link starts, and then what is started inside it. -/
theorem Visit.started_eq
    (environment : Environment)
    (visit : Visit) :
    visit.started environment =
      (match visit.starts? with
        | none => []
        | some next => next.started environment) ++
      (visit.inside environment).flatMap (Visit.started environment) := by
  rw [Visit.started]
  congr 1
  · cases visit.starts? with
    | none => rfl
    | some next => simp [Compilation.started]
  · simp

/-- What is started during a visit of a run is started by the links in it. -/
theorem occurs_of_mem_started
    {environment : Environment}
    {visit : Visit}
    {compilation : Compilation}
    (member : compilation ∈ visit.started environment) :
    ∃ found, Occurs environment [visit] found ∧
      found.starts? = some compilation := by
  induction visit using Visit.inductionBelow environment with
  | step visit inside lower =>
      have here : Occurs environment [visit] visit := .start List.mem_cons_self
      rw [Visit.started_eq] at member
      rcases List.mem_append.mp member with own | later
      · split at own
        next => cases own
        next next starts =>
          rcases List.mem_cons.mp own with rfl | deeper
          · exact ⟨visit, here, starts⟩
          · obtain ⟨inner, among, later⟩ := List.mem_flatMap.mp deeper
            have below : inner.depth < visit.depth := by
              rw [(Compilation.mem_visits among).1]
              exact depth_of_starts starts
            obtain ⟨found, occurs, same⟩ := lower inner below later
            exact ⟨found, occurs.trans (List.forall_mem_singleton.mpr
              (.linked here starts among)), same⟩
      · obtain ⟨inner, among, later⟩ := List.mem_flatMap.mp later
        obtain ⟨found, occurs, same⟩ := inside inner among later
        exact ⟨found, occurs.trans (List.forall_mem_singleton.mpr
          (.inside here among)), same⟩

/-! ## Runs -/

/-- What lies between two sessions: the pieces that are written into the page that is
open, and the compilations that are started, in order. -/
inductive Runs
    (environment : Environment) :
    Session → List Piece → List Compilation → Session → Prop
  | done (session : Session) : Runs environment session [] [] session
  | write (session : Session) (pieces : List Piece) :
      Runs environment session pieces []
        (session.writeUnits (Html.units pieces))
  | run (session : Session) (call : CodeCall) :
      Runs environment session [] [] (runCode environment call session).2
  /-- A compilation fails before the file of its page is open. -/
  | refuse
      {compilation : Compilation}
      (unopened : compilation.opened? environment = none) :
      Runs environment compilation.session [] [compilation]
        (compilation.result environment).2
  /-- A compilation writes its page, as far as it gets. -/
  | page
      {compilation : Compilation}
      {opened last : Session}
      {document : Document}
      {started : List Compilation}
      (opens : compilation.opened? environment = some (opened, document))
      (inner : Runs environment opened (compilation.html environment) started
        last) :
      Runs environment compilation.session [] (compilation :: started)
        { last.flush with page := compilation.session.page }
  | andThen
      {first middle last : Session}
      {html later : List Piece}
      {started others : List Compilation}
      (front : Runs environment first html started middle)
      (back : Runs environment middle later others last) :
      Runs environment first (html ++ later) (started ++ others) last

/-- A stretch of a run, with the visits that it is made of. Each of them is come to by
a part of the stretch. -/
structure Course
    (environment : Environment)
    (start : Session)
    (visits : List Visit)
    (html : List Piece)
    (finish : Session) : Prop where
  runs : Runs environment start html
    (visits.flatMap (Visit.started environment)) finish
  found : ∀ visit ∈ visits, ∃ written started,
    Runs environment start written started visit.session ∧
      started ⊆ visits.flatMap (Visit.started environment)

section Courses

variable {environment : Environment}

/-- Pieces that are written are a run. -/
theorem runs_emit (pieces : List Piece) (session : Session) :
    Runs environment session (Outcome.emit pieces session).html []
      (Outcome.emit pieces session).session :=
  .write session pieces

theorem Runs.trans
    {first middle last : Session}
    {html later : List Piece}
    (front : Runs environment first html [] middle)
    (back : Runs environment middle later [] last) :
    Runs environment first (html ++ later) [] last :=
  .andThen front back

/-- Something is written before a stretch and after it. -/
theorem Course.between
    {start first last finish : Session}
    {visits : List Visit}
    {before html after : List Piece}
    (front : Runs environment start before [] first)
    (course : Course environment first visits html last)
    (back : Runs environment last after [] finish) :
    Course environment start visits (before ++ html ++ after) finish := by
  refine ⟨?_, fun visit member => ?_⟩
  · have whole := (front.andThen course.runs).andThen back
    rwa [List.nil_append, List.append_nil] at whole
  · obtain ⟨written, started, runs, among⟩ := course.found visit member
    exact ⟨_, _, front.andThen runs, among⟩

/-- Stretches one after the other are one, with the visits of both. -/
theorem Course.andThen
    {start : Session}
    {visits later : List Visit}
    {first : Outcome}
    {next : Session → Outcome}
    (front : Course environment start visits first.html first.session)
    (stopped : ∀ error, first.failure = some error → later = [])
    (back : first.failure = none →
      Course environment first.session later (next first.session).html
        (next first.session).session) :
    Course environment start (visits ++ later) (first.andThen next).html
      (first.andThen next).session := by
  cases complete : first.failure with
  | some error =>
      rw [stopped error complete, List.append_nil,
        Outcome.andThen_of_failure complete]
      exact front
  | none =>
      rw [Outcome.andThen_of_complete complete]
      have following := back complete
      refine ⟨?_, fun visit member => ?_⟩
      · rw [List.flatMap_append]
        exact front.runs.andThen following.runs
      · rw [List.flatMap_append]
        rcases List.mem_append.mp member with old | new
        · obtain ⟨written, started, runs, among⟩ := front.found visit old
          exact ⟨written, started, runs, List.subset_append_of_subset_left _ among⟩
        · obtain ⟨written, started, runs, among⟩ := following.found visit new
          exact ⟨_, _, front.runs.andThen runs,
            List.append_subset.mpr ⟨List.subset_append_left _ _,
              List.subset_append_of_subset_right _ among⟩⟩

theorem Course.alone
    {start finish : Session}
    {html : List Piece}
    (runs : Runs environment start html [] finish) :
    Course environment start [] html finish :=
  ⟨runs, List.forall_mem_nil _⟩

/-- A stretch, and something that follows unless the stretch fails. -/
theorem Course.followed
    {start : Session}
    {visits : List Visit}
    {first : Outcome}
    {next : Session → Outcome}
    (front : Course environment start visits first.html first.session)
    (back : ∀ session, Runs environment session (next session).html []
      (next session).session) :
    Course environment start visits (first.andThen next).html
      (first.andThen next).session := by
  have whole := front.andThen (fun _ _ => rfl) fun _ => .alone (back _)
  rwa [List.append_nil] at whole

/-- Any pieces may stand around content. -/
theorem framing_any : Framing fun _ _ => True where
  heading := fun _ => trivial
  styled := fun _ => trivial
  orderedItem := fun _ => trivial
  unorderedItem := trivial
  table := trivial
  row := trivial
  cell := trivial
  paragraph := trivial

/-- A stretch in a container is one with the tags of the container. -/
theorem Course.wrapped
    {site : Site}
    {visits : List Visit}
    {before after : List Piece}
    {inside : Session → Outcome}
    (course : Course environment (site.enter before).session visits
      (inside (site.enter before).session).html
      (inside (site.enter before).session).session) :
    Course environment site.session visits
      (wrapped before after inside site.session).html
      (wrapped before after inside site.session).session := by
  have opening : (Outcome.emit before site.session).failure = none := rfl
  have course : Course environment site.session visits
      ((Outcome.emit before site.session).andThen inside).html
      ((Outcome.emit before site.session).andThen inside).session := by
    rw [Outcome.andThen_of_complete opening]
    have within := Course.between (runs_emit before site.session) course
      (.done _)
    rwa [List.append_nil] at within
  exact course.followed fun last => runs_emit after last

/-- The stretch of a whole is made of those of its parts. -/
theorem compositional_course :
    Compositional (fun _ _ => True) fun site visits outcome =>
      Course environment site.session visits outcome.html outcome.session where
  framing := framing_any
  done := fun site => .alone (.done site.session)
  andThen := fun front stopped back => front.andThen stopped back
  between := fun _ course => course.wrapped
  moved := fun _ _ course => course

/-- The stretch of a visit, and how the visits inside it are come to. -/
structure Visit.Course
    (environment : Environment)
    (visit : Visit) : Prop where
  runs : Runs environment visit.session (visit.outcome environment).html
    (visit.started environment) (visit.outcome environment).session
  found : ∀ inner ∈ visit.inside environment, ∃ written started,
    Runs environment visit.session written started inner.session ∧
      started ⊆ visit.started environment

/-- A visit is a stretch by itself. -/
theorem Visit.Course.single
    {visit : Visit}
    (course : visit.Course environment) :
    Page.Course environment visit.session [visit]
      (visit.outcome environment).html
      (visit.outcome environment).session := by
  refine ⟨?_, List.forall_mem_singleton.mpr
    ⟨[], [], .done _, List.nil_subset _⟩⟩
  rw [List.flatMap_singleton]
  exact course.runs

/-- The head of a page is a run. -/
theorem runs_pageHead (session : Session) :
    Runs environment session (pageHead environment session).html []
      (pageHead environment session).session := by
  have sheets : ∀ hrefs session, Runs environment session
      (renderStylesheets hrefs session).html []
      (renderStylesheets hrefs session).session := by
    intro hrefs
    induction hrefs with
    | nil => exact fun session => .done session
    | cons first others inductionHypothesis =>
        exact fun session => (runs_emit _ session).trans
          (inductionHypothesis _)
  have whole : Course environment session []
      (pageHead environment session).html
      (pageHead environment session).session :=
    Course.followed (Course.followed (.alone (runs_emit _ session)) (sheets _))
      (runs_emit _)
  exact whole.runs

/-- A page is written in a stretch of the visits in it. -/
theorem course_renderEnvelope
    {depth : Nat}
    {context : Context}
    {document : Document}
    {session : Session}
    (parts : ∀ visit ∈ (Site.ofPage environment depth context session).paragraphs
      environment document, visit.Course environment) :
    Course environment session
      ((Site.ofPage environment depth context session).paragraphs environment document)
      (renderEnvelope environment (renderHashtag environment depth context) document
        session).html
      (renderEnvelope environment (renderHashtag environment depth context) document
        session).session := by
  have within := compositional_course.paragraphs
    (Site.ofPage environment depth context session)
    fun visit member => (parts visit member).single
  rw [renderEnvelope_eq]
  refine Course.followed ?_ (runs_emit _)
  rw [Outcome.andThen_of_complete (pageHead_complete environment session)]
  have whole := Course.between (runs_pageHead session) within (.done _)
  rwa [List.append_nil] at whole

namespace Compilation

variable {compilation : Compilation}

/-- A page that is open is written in a stretch of the visits in it. -/
theorem course
    {opened : Session}
    {document : Document}
    (opens : compilation.opened? environment = some (opened, document))
    (parts : ∀ visit ∈ compilation.visits environment,
      visit.Course environment) :
    Page.Course environment opened (compilation.visits environment)
      (compilation.html environment)
      (renderEnvelope environment
        (renderHashtag environment compilation.depth compilation.context)
        document opened).session := by
  rw [visits, opens] at parts ⊢
  rw [html, opens]
  exact course_renderEnvelope parts

/-- A compilation is a run that writes nothing into the page around it. -/
theorem runs
    (parts : ∀ visit ∈ compilation.visits environment,
      visit.Course environment) :
    Runs environment compilation.session [] (compilation.started environment)
      (compilation.result environment).2 := by
  cases opens : compilation.opened? environment with
  | none =>
      rw [started, visits, opens]
      exact .refuse opens
  | some found =>
      obtain ⟨opened, document⟩ := found
      rw [result_of_opened opens]
      exact .page opens (course opens parts).runs

end Compilation

/-- Every visit is a stretch of a run. -/
theorem Visit.course (visit : Visit) : visit.Course environment := by
  induction visit using Visit.inductionBelow environment with
  | step visit inside lower =>
      -- A container is a stretch of the visits inside it. Any other visit is one step,
      -- or the run of the page that it starts.
      by_cases contains : visit.Contains environment
      · have course := compositional_course.inside contains
          fun inner member => (inside inner member).single
        have started : visit.started environment =
            (visit.inside environment).flatMap (Visit.started environment) := by
          rw [Visit.started_eq, starts_of_contains contains]
          rfl
        refine ⟨?_, ?_⟩
        · rw [started]
          exact course.runs
        · rw [started]
          exact course.found
      · have leaf := Visit.leaf contains
        have started := visit.started_eq environment
        have none := Visit.inside_of_leaf contains
        rw [none, List.flatMap_nil, List.append_nil] at started
        refine ⟨?_, by rw [none]; exact List.forall_mem_nil _⟩
        rw [started]
        generalize starts : visit.starts? = next at leaf
        generalize visit.outcome environment = outcome at leaf
        cases leaf with
        | fails error _ => exact .done visit.session
        | writes pieces => exact .write visit.session pieces
        | writesTwice pieces later =>
            exact (runs_emit pieces visit.session).trans (runs_emit later _)
        | runs call pieces =>
            exact Runs.trans (.run visit.session call) (runs_emit pieces _)
        | links next pieces =>
            have runs : Runs environment next.session []
                (next.started environment) (next.result environment).2 :=
              Compilation.runs fun found member => lower found (by
                rw [(Compilation.mem_visits member).1]
                exact depth_of_starts starts)
            rw [session_of_starts starts] at runs
            generalize next.result environment = result at runs
            obtain ⟨answer, after⟩ := result
            cases answer with
            | error error => exact runs
            | ok path =>
                have whole := runs.andThen (runs_emit pieces after)
                rwa [List.nil_append, List.append_nil] at whole

/-- A visit in a page is come to from where the file of the page is open. -/
theorem Compilation.comes
    {compilation : Compilation}
    {visit : Visit}
    (member : visit ∈ compilation.visits environment) :
    ∃ opened document written started,
      compilation.opened? environment = some (opened, document) ∧
        Runs environment opened written started visit.session ∧
        started ⊆ (compilation.visits environment).flatMap
          (Visit.started environment) := by
  cases opens : compilation.opened? environment with
  | none =>
      rw [visits, opens] at member
      cases member
  | some found =>
      obtain ⟨opened, document⟩ := found
      obtain ⟨written, started, runs, among⟩ :=
        (course opens fun visit _ => visit.course).found visit member
      exact ⟨opened, document, written, started, rfl, runs, among⟩

/-- A run goes on by changes, and begins no other documents than those of its
compilations. -/
theorem Runs.advances
    {begins : Location → Prop}
    {before after : Session}
    {html : List Piece}
    {started : List Compilation}
    (runs : Runs environment before html started after)
    (allowed : ∀ compilation ∈ started, begins compilation.source) :
    Advances environment begins before after := by
  induction runs with
  | done session => exact .refl
  | write session pieces => exact .single (.write session _)
  | run session call => exact .single (.run session call)
  | @refuse compilation unopened =>
      rcases @Compilation.opened_cases environment compilation with
        ⟨_, error, after, failed, begun⟩ | ⟨opened, document, opens, _⟩
      · rw [failed]
        exact begun begins (allowed compilation List.mem_cons_self)
      · rw [unopened] at opens
        cases opens
  | @page compilation opened last document started opens _ inductionHypothesis =>
      rcases @Compilation.opened_cases environment compilation with
        ⟨unopened, _⟩ | ⟨_, _, opens', begun, _⟩
      · rw [unopened] at opens
        cases opens
      · rw [opens] at opens'
        cases opens'
        have inner := inductionHypothesis fun other member =>
          allowed other (List.mem_cons_of_mem _ member)
        exact ((begun begins (allowed compilation List.mem_cons_self)).trans
          inner).tail (.close last _)
  | andThen _ _ frontHypothesis backHypothesis =>
      exact (frontHypothesis fun _ member =>
        allowed _ (List.mem_append_left _ member)).trans
          (backHypothesis fun _ member =>
            allowed _ (List.mem_append_right _ member))

end Courses

end Page
end NotePress
