import Mathlib.Logic.Relation
import NotePress.Proofs.Page.Composition

/-!
# How a session goes on

A render changes its session in a few ways only. What each of these changes keeps,
every render keeps. A render is composed of its visits: what is kept goes from the
start of the whole to the start of each visit, and from the end of the visit to the
end of the whole.
-/

namespace NotePress
namespace Page

open Html (Piece)
open Document (Block)

/-! ## Changes of a session -/

/-- The session in which a document counts as compiled. -/
def Session.begin (session : Session) (source : Location) : Session :=
  { session with
    compiled :=
      if session.compiled.contains source then
        session.compiled
      else
        session.compiled ++ [source] }

/-- One change of a session, in which only some documents may be begun. -/
inductive Change
    (environment : Environment)
    (begins : Location → Prop) : Session → Session → Prop
  | write (session : Session) (units : List String) :
      Change environment begins session (session.writeUnits units)
  | run (session : Session) (call : CodeCall) :
      Change environment begins session (runCode environment call session).2
  | begin
      (session : Session)
      {source : Location}
      (allowed : begins source) :
      Change environment begins session (session.begin source)
  | style (session : Session) (directory : Path) :
      Change environment begins session
        (withStylesheet environment directory session)
  | create
      {session : Session}
      {path : Path}
      {file : OpenFile}
      {disk : Disk}
      (creates : session.disk.createFile path = .ok (file, disk)) :
      Change environment begins session
        { session with disk := disk, page := some ⟨file, 0, .empty⟩ }
  | close (session : Session) (page : Option PageFile) :
      Change environment begins session { session.flush with page := page }

/-- A session comes from another by changes. -/
def Advances
    (environment : Environment)
    (begins : Location → Prop) : Session → Session → Prop :=
  Relation.ReflTransGen (Change environment begins)

/-- What every change keeps is kept. -/
theorem Advances.keeps
    {environment : Environment}
    {begins : Location → Prop}
    {invariant : Session → Prop}
    (step : ∀ before after, Change environment begins before after →
      invariant before → invariant after)
    {before after : Session}
    (advances : Advances environment begins before after)
    (holds : invariant before) :
    invariant after := by
  induction advances with
  | refl => exact holds
  | tail _ change inductionHypothesis =>
      exact step _ _ change inductionHypothesis

/-! ## Stretches of a run -/

/-- One stretch of a run: the session it finds, the session it leaves, the error
that stopped it, and the pieces it wrote. -/
structure Stretch where
  start : Session
  finish : Session
  failure : Option RenderError
  html : List Piece

/-- The stretch of an outcome. -/
def Outcome.from (outcome : Outcome) (start : Session) : Stretch :=
  ⟨start, outcome.session, outcome.failure, outcome.html⟩

/-- The stretch of a visit. -/
def Visit.stretch (environment : Environment) (visit : Visit) : Stretch :=
  (visit.outcome environment).from visit.session

/-- A stretch that goes on by changes. -/
def Stretch.Advances
    (environment : Environment)
    (begins : Location → Prop)
    (stretch : Stretch) : Prop :=
  Page.Advances environment begins stretch.start stretch.finish

/-- A stretch that is a part of another. -/
structure PartOf
    (environment : Environment)
    (begins : Location → Prop)
    (inner outer : Stretch) : Prop where
  before : Advances environment begins outer.start inner.start
  after : Advances environment begins inner.finish outer.finish
  complete : outer.failure = none → inner.failure = none

section Composition

variable
  {environment : Environment}
  {begins : Location → Prop}
  {links : List Html.Attribute → Prop}

theorem PartOf.refl (stretch : Stretch) :
    PartOf environment begins stretch stretch :=
  ⟨.refl, .refl, id⟩

theorem PartOf.trans
    {inner middle outer : Stretch}
    (first : PartOf environment begins inner middle)
    (second : PartOf environment begins middle outer) :
    PartOf environment begins inner outer :=
  ⟨second.before.trans first.before, first.after.trans second.after,
    fun complete => first.complete (second.complete complete)⟩

/-- A stretch that goes on by changes, and visits that are parts of it. Besides some
anchors of its own it writes no anchors but theirs. -/
structure Composed
    (environment : Environment)
    (begins : Location → Prop)
    (links : List Html.Attribute → Prop)
    (visits : List Visit)
    (whole : Stretch) : Prop where
  advances : whole.Advances environment begins
  parts : ∀ visit ∈ visits,
    PartOf environment begins (visit.stretch environment) whole
  anchors : ∀ attributes, .opening .anchor attributes ∈ whole.html →
    links attributes ∨ ∃ visit ∈ visits,
      .opening .anchor attributes ∈ (visit.stretch environment).html

/-- Pieces among which no anchor is opened. -/
def Unlinked (pieces : List Piece) : Prop :=
  ∀ attributes, .opening .anchor attributes ∉ pieces

theorem advances_emit (pieces : List Piece) (session : Session) :
    ((Outcome.emit pieces session).from session).Advances environment begins :=
  .single (.write session (Html.units pieces))

namespace Composed

variable
  {visits : List Visit}
  {session : Session}

/-- A visit is a part of itself. -/
theorem visit
    {visit : Visit}
    (advances : (visit.stretch environment).Advances environment begins) :
    Composed environment begins links [visit] (visit.stretch environment) := by
  refine ⟨advances, ?_, ?_⟩
  · intro found member
    rw [List.mem_singleton.mp member]
    exact PartOf.refl _
  · exact fun attributes member => .inr ⟨visit, List.mem_cons_self, member⟩

/-- A stretch without visits and without anchors. -/
theorem alone
    {whole : Stretch}
    (advances : whole.Advances environment begins)
    (unlinked : Unlinked whole.html) :
    Composed environment begins links [] whole :=
  ⟨advances, List.forall_mem_nil _,
    fun attributes member => (unlinked attributes member).elim⟩

/-- What a stretch is composed of, a stretch around it without further anchors is
composed of. -/
theorem around
    {inner outer : Stretch}
    (composed : Composed environment begins links visits inner)
    (part : PartOf environment begins inner outer)
    (anchors : ∀ attributes, .opening .anchor attributes ∈ outer.html →
      .opening .anchor attributes ∈ inner.html) :
    Composed environment begins links visits outer :=
  ⟨(part.before.trans composed.advances).trans part.after,
    fun visit member => (composed.parts visit member).trans part,
    fun attributes member =>
      composed.anchors attributes (anchors attributes member)⟩

end Composed

theorem Stretch.Advances.andThen
    {session : Session}
    {first : Outcome}
    {next : Session → Outcome}
    (front : (first.from session).Advances environment begins)
    (back : first.failure = none →
      ((next first.session).from first.session).Advances environment begins) :
    ((first.andThen next).from session).Advances environment begins := by
  cases complete : first.failure with
  | none =>
      rw [Outcome.andThen_of_complete complete]
      exact front.trans (back complete)
  | some error =>
      rw [Outcome.andThen_of_failure complete]
      exact front

/-- The first of two outcomes is a part of both. -/
theorem partOf_first
    {session : Session}
    {first : Outcome}
    {next : Session → Outcome}
    (advances : first.failure = none →
      ((next first.session).from first.session).Advances environment begins) :
    PartOf environment begins (first.from session)
      ((first.andThen next).from session) := by
  cases complete : first.failure with
  | none =>
      refine ⟨.refl, ?_, fun _ => complete⟩
      rw [Outcome.andThen_of_complete complete]
      exact advances complete
  | some error =>
      rw [Outcome.andThen_of_failure complete]
      exact PartOf.refl _

/-- The second of two outcomes is a part of both, when there is one. -/
theorem partOf_later
    {session : Session}
    {first : Outcome}
    {next : Session → Outcome}
    (advances : (first.from session).Advances environment begins)
    (complete : first.failure = none) :
    PartOf environment begins ((next first.session).from first.session)
      ((first.andThen next).from session) := by
  rw [Outcome.andThen_of_complete complete]
  exact ⟨advances, .refl, id⟩

/-- The anchors between outcomes without anchors are those of what is inside. -/
theorem anchor_of_between
    {start : Outcome}
    {inside : Session → Outcome}
    {after : List Piece}
    (started : start.failure = none)
    (unlinkedBefore : Unlinked start.html)
    (unlinkedAfter : Unlinked after)
    {attributes : List Html.Attribute}
    (member : .opening .anchor attributes ∈
      ((start.andThen inside).andThen (.emit after)).html) :
    .opening .anchor attributes ∈ (inside start.session).html := by
  have written : .opening .anchor attributes ∈ (start.andThen inside).html →
      .opening .anchor attributes ∈ (inside start.session).html := by
    intro found
    rw [Outcome.andThen_of_complete started] at found
    exact (List.mem_append.mp found).resolve_left (unlinkedBefore attributes)
  cases complete : (start.andThen inside).failure with
  | some error =>
      rw [Outcome.andThen_of_failure complete] at member
      exact written member
  | none =>
      rw [Outcome.andThen_of_complete complete] at member
      exact written
        ((List.mem_append.mp member).resolve_right (unlinkedAfter attributes))

namespace Composed

variable
  {visits : List Visit}
  {inside : Session → Outcome}
  {session : Session}

/-- All that is written is composed of what is inside. -/
theorem between
    {start : Outcome}
    {after : List Piece}
    (advances : (start.from session).Advances environment begins)
    (started : start.failure = none)
    (unlinkedBefore : Unlinked start.html)
    (unlinkedAfter : Unlinked after)
    (composed : Composed environment begins links visits
      ((inside start.session).from start.session)) :
    Composed environment begins links visits
      (((start.andThen inside).andThen (.emit after)).from session) :=
  composed.around
    ((partOf_later advances started).trans
      (partOf_first fun _ => advances_emit after _))
    fun _ member => anchor_of_between started unlinkedBefore unlinkedAfter member

theorem wrapped
    {before after : List Piece}
    (unlinkedBefore : Unlinked before)
    (unlinkedAfter : Unlinked after)
    (composed : Composed environment begins links visits
      ((inside (Outcome.emit before session).session).from
        (Outcome.emit before session).session)) :
    Composed environment begins links visits
      ((wrapped before after inside session).from session) :=
  between (advances_emit before session) rfl unlinkedBefore unlinkedAfter
    composed

end Composed

/-- Outcomes one after the other are composed of what each is composed of. -/
theorem Composed.andThen
    {visits later : List Visit}
    {session : Session}
    {first : Outcome}
    {next : Session → Outcome}
    (front : Composed environment begins links visits (first.from session))
    (stopped : ∀ error, first.failure = some error → later = [])
    (back : first.failure = none →
      Composed environment begins links later
        ((next first.session).from first.session)) :
    Composed environment begins links (visits ++ later)
      ((first.andThen next).from session) := by
  cases complete : first.failure with
  | some error =>
      rw [stopped error complete, List.append_nil,
        Outcome.andThen_of_failure complete]
      exact front
  | none =>
      have following := back complete
      refine ⟨front.advances.andThen fun _ => following.advances, ?_, ?_⟩
      · intro visit member
        rcases List.mem_append.mp member with old | new
        · exact (front.parts visit old).trans
            (partOf_first fun _ => following.advances)
        · exact (following.parts visit new).trans
            (partOf_later front.advances complete)
      · intro attributes member
        rw [Outcome.andThen_of_complete complete] at member
        rcases List.mem_append.mp member with old | new
        · refine (front.anchors attributes old).imp_right ?_
          rintro ⟨visit, among, written⟩
          exact ⟨visit, List.mem_append_left _ among, written⟩
        · refine (following.anchors attributes new).imp_right ?_
          rintro ⟨visit, among, written⟩
          exact ⟨visit, List.mem_append_right _ among, written⟩

/-! ## Composition from visits -/

/-- No anchor is opened by the pieces around content. -/
theorem framing_unlinked :
    Framing fun before after => Unlinked before ∧ Unlinked after where
  heading := fun _ => by simp [Unlinked]
  styled := fun style => by cases style <;> simp [Unlinked, styleTag]
  orderedItem := fun ordinal => by simp [Unlinked]
  unorderedItem := by simp [Unlinked]
  table := by simp [Unlinked]
  row := by simp [Unlinked]
  cell := by simp [Unlinked]
  paragraph := by simp [Unlinked]

theorem compositional_composed :
    Compositional (fun before after => Unlinked before ∧ Unlinked after)
      fun site visits outcome => Composed environment begins links visits
        (outcome.from site.session) where
  framing := framing_unlinked
  done := fun _ => .alone .refl fun _ => List.not_mem_nil
  andThen := fun front stopped back => front.andThen stopped back
  between := fun unlinked composed =>
    composed.wrapped unlinked.1 unlinked.2
  moved := fun _ _ composed => composed

/-- A visit goes on by changes. -/
def Visit.Advances
    (environment : Environment)
    (begins : Location → Prop)
    (visit : Visit) : Prop :=
  (visit.stretch environment).Advances environment begins

/-! ## Leaves and directives -/

theorem unlinked_renderCode
    (block : Document.CodeBlock)
    (session : Session) :
    Unlinked (renderCode environment block session).html := by
  rw [renderCode]
  split
  · simp [Unlinked, listing, Outcome.emit]
  · split
    · split
      · simp [Unlinked, listing, Outcome.emit]
      · simp [Unlinked, listing, Outcome.emit]
    · simp [Unlinked, listing, Outcome.emit]

theorem unlinked_renderQuotation
    (quotation : Document.Quotation)
    (session : Session) :
    Unlinked (renderQuotation quotation session).html := by
  rw [renderQuotation]
  split
  · simp [Unlinked, Outcome.emit]
  · rw [Outcome.andThen_of_complete rfl]
    simp [Unlinked, Outcome.emit]

theorem advances_renderCode (block : Document.CodeBlock) (session : Session) :
    ((renderCode environment block session).from session).Advances environment
      begins := by
  rw [renderCode]
  split
  · exact advances_emit _ session
  · have run : Change environment begins session _ :=
      .run session ⟨block.command, block.code⟩
    split
    next output after ran =>
      rw [ran] at run
      split
      · exact (Relation.ReflTransGen.single run).trans (advances_emit _ after)
      · exact (Relation.ReflTransGen.single run).trans (advances_emit _ after)
    next error after ran =>
      rw [ran] at run
      exact (Relation.ReflTransGen.single run).trans (advances_emit _ after)

theorem advances_renderQuotation
    (quotation : Document.Quotation)
    (session : Session) :
    ((renderQuotation quotation session).from session).Advances environment
      begins := by
  rw [renderQuotation]
  split
  · exact advances_emit _ session
  · exact (advances_emit _ session).andThen fun _ => advances_emit _ _

/-- The directive that a visit takes up. -/
def Visit.directive? (visit : Visit) : Option Directive :=
  match visit.block with
  | .hashtag hashtag => Directive.ofHashtag? hashtag
  | _ => none

/-- The attributes of the anchor of a link that a visit takes up. -/
def Visit.Links (visit : Visit) (attributes : List Html.Attribute) : Prop :=
  ∃ target title, visit.directive? = some (.link target title) ∧
    attributes = [.given "href"
      (if Target.isSource target then Target.page target else target)]

theorem links_of_directivePieces
    {hashtag : Document.Hashtag}
    {directive : Directive}
    {attributes : List Html.Attribute}
    (member : .opening .anchor attributes ∈ directivePieces hashtag directive) :
    ∃ target title, directive = .link target title ∧
      attributes = [.given "href"
        (if Target.isSource target then Target.page target else target)] := by
  cases directive with
  | link target title =>
      refine ⟨target, title, rfl, ?_⟩
      simpa [directivePieces, linkPieces] using member
  | image source => simp [directivePieces] at member
  | nested target => cases member
  | autoNested => cases member
  | other => simp [directivePieces] at member

/-- The anchors of a directive that brings in no document are those of links. -/
theorem links_of_alone
    {site : Site}
    {hashtag : Document.Hashtag}
    (alone : site.depth = 0 ∨
      transcluded? environment site.context hashtag site.session = none)
    {attributes : List Html.Attribute}
    (member : .opening .anchor attributes ∈
      (renderHashtag environment site.depth site.context hashtag
        site.session).html) :
    (Visit.mk site (.hashtag hashtag)).Links attributes := by
  rcases renderHashtag_of_not_transcluded alone with
    ⟨error, after, fails⟩ | ⟨directive, after, found, writes⟩
  · rw [fails] at member
    cases member
  · rw [writes] at member
    obtain ⟨target, title, rfl, same⟩ := links_of_directivePieces member
    exact ⟨target, title, found, same⟩

/-- The compilation that a visit starts. -/
def Visit.starts? (visit : Visit) : Option Compilation :=
  match visit.block, visit.depth with
  | .hashtag hashtag, depth + 1 =>
      linked? depth visit.context hashtag visit.session
  | _, _ => none

namespace Compilation

variable
  (environment : Environment)
  (compilation : Compilation)

/-- The context of the document. -/
def context : Context :=
  ⟨directoryOf compilation.source, [Location.path compilation.source]⟩

/-- The document, and the session in which the file of its page is open, unless
something fails before. -/
def opened? : Option (Session × Document) :=
  let begun := compilation.session.begin compilation.source
  match loadSource begun.disk compilation.source with
  | .error _ => none
  | .ok document =>
      let styled := withStylesheet environment
        (directoryOf compilation.source) begun
      match styled.disk.createFile (Location.path compilation.source).page with
      | .error _ => none
      | .ok (file, disk) =>
          some ({ styled with disk := disk, page := some ⟨file, 0, .empty⟩ },
            document)

/-- The pieces of the page. -/
def html : List Piece :=
  match compilation.opened? environment with
  | none => []
  | some (opened, document) =>
      (renderEnvelope environment
        (renderHashtag environment compilation.depth compilation.context)
        document opened).html

/-- The visits in the page. -/
def visits : List Visit :=
  match compilation.opened? environment with
  | none => []
  | some (opened, document) =>
      (Site.ofPage environment compilation.depth compilation.context
        opened).paragraphs environment document

/-- The stretch of a compilation. -/
def stretch : Stretch :=
  ⟨compilation.session, (compilation.result environment).2,
    match (compilation.result environment).1 with
    | .error error => some error
    | .ok _ => none,
    compilation.html environment⟩

end Compilation

/-- A compilation is a part of the visit that starts it. -/
theorem partOf_starts
    {visit : Visit}
    {next : Compilation}
    (starts : visit.starts? = some next) :
    PartOf environment begins (next.stretch environment)
      (visit.stretch environment) := by
  obtain ⟨⟨depth, context, around, session⟩, block⟩ := visit
  unfold Visit.starts? at starts
  split at starts
  next hashtag below blockEqual depthEqual =>
    cases blockEqual
    cases depthEqual
    obtain ⟨target, title, _, _, begun, writes⟩ := renderHashtag_of_linked starts
    have unfolded : (Visit.mk ⟨below + 1, context, around, session⟩
        (.hashtag hashtag)).stretch environment =
        (renderHashtag environment (below + 1) context hashtag session).from
          session := by
      rw [Visit.stretch, Visit.outcome, renderBlock]
      rfl
    rw [unfolded, writes, Compilation.stretch, begun]
    obtain ⟨answer, after⟩ := next.result environment
    cases answer with
    | error error => exact ⟨.refl, .refl, id⟩
    | ok path => exact ⟨.refl, advances_emit _ after, fun _ => rfl⟩
  next => cases starts

/-- A directive that brings in no document goes on by changes, when the compilation
that it starts does. -/
theorem advances_alone
    {site : Site}
    {hashtag : Document.Hashtag}
    (alone : site.depth = 0 ∨
      transcluded? environment site.context hashtag site.session = none)
    (started : ∀ next, (Visit.mk site (.hashtag hashtag)).starts? = some next →
      (next.stretch environment).Advances environment begins) :
    ((renderHashtag environment site.depth site.context hashtag
      site.session).from site.session).Advances environment begins := by
  have unfolded : (Visit.mk site (.hashtag hashtag)).stretch environment =
      (renderHashtag environment site.depth site.context hashtag
        site.session).from site.session := by
    rw [Visit.stretch, Visit.outcome, renderBlock]
    rfl
  cases starts : (Visit.mk site (.hashtag hashtag)).starts? with
  | some next =>
      have part : PartOf environment begins (next.stretch environment)
          ((Visit.mk site (.hashtag hashtag)).stretch environment) :=
        partOf_starts starts
      rw [unfolded] at part
      exact (part.before.trans (started next starts)).trans part.after
  | none =>
      obtain ⟨depth, context, around, session⟩ := site
      cases depth with
      | zero =>
          rw [renderHashtag]
          exact .refl
      | succ depth =>
          rcases renderHashtag_of_alone
              (alone.resolve_left (Nat.succ_ne_zero depth)) starts with
            ⟨error, _, fails⟩ | ⟨directive, _, writes⟩
          · rw [fails]
            exact .refl
          · rw [writes]
            exact advances_emit _ session

/-- A visit that takes up no container is composed of nothing. -/
theorem composed_leaf
    {visit : Visit}
    (leaf : ¬visit.Contains environment)
    (started : ∀ next, visit.starts? = some next →
      (next.stretch environment).Advances environment begins) :
    Composed environment begins visit.Links [] (visit.stretch environment) := by
  obtain ⟨site, block⟩ := visit
  have unfolded : (Visit.mk site block).stretch environment =
      (renderBlock environment (site.hashtags environment) block
        site.session).from site.session := rfl
  rw [unfolded]
  cases block with
  | heading level children =>
      have invalid : ¬(1 ≤ level ∧ level ≤ 6) := leaf
      rw [renderBlock, if_neg invalid]
      exact .alone .refl fun _ => List.not_mem_nil
  | hashtag hashtag =>
      have alone : site.depth = 0 ∨
          transcluded? environment site.context hashtag site.session = none :=
        Classical.not_not.mp leaf
      rw [renderBlock]
      exact ⟨advances_alone alone started, List.forall_mem_nil _,
        fun _ member => .inl (links_of_alone alone member)⟩
  | codeBlock code =>
      rw [renderBlock]
      exact .alone (advances_renderCode code site.session)
        (unlinked_renderCode code site.session)
  | quotation quotation =>
      rw [renderBlock]
      exact .alone (advances_renderQuotation quotation site.session)
        (unlinked_renderQuotation quotation site.session)
  | text _ | literal _ | textbox | mention _ =>
      rw [renderBlock]
      exact .alone (advances_emit _ site.session)
        (by simp [Unlinked, Outcome.from, Outcome.emit, textbox])
  | checkbox checked =>
      rw [renderBlock]
      exact .alone (advances_emit _ site.session)
        (by simp [Unlinked, Outcome.from, Outcome.emit, checkbox])
  | _ => exact (leaf trivial).elim

/-- A visit is composed of the visits inside it. -/
theorem composed_inside
    (visit : Visit)
    (inside : ∀ inner ∈ visit.inside environment,
      inner.Advances environment begins)
    (started : ∀ next, visit.starts? = some next →
      (next.stretch environment).Advances environment begins) :
    Composed environment begins visit.Links (visit.inside environment)
      (visit.stretch environment) := by
  by_cases contains : visit.Contains environment
  · exact compositional_composed.inside contains fun inner member =>
      .visit (inside inner member)
  · rw [Visit.inside_of_leaf contains]
    exact composed_leaf contains started

/-! ## Pages -/

theorem advances_pageHead (session : Session) :
    ((pageHead environment session).from session).Advances environment
      begins := by
  have sheets : ∀ hrefs session,
      ((renderStylesheets hrefs session).from session).Advances environment
        begins := by
    intro hrefs
    induction hrefs with
    | nil => exact fun _ => .refl
    | cons first others inductionHypothesis =>
        exact fun session => (advances_emit _ session).andThen
          fun _ => inductionHypothesis _
  exact ((advances_emit _ session).andThen fun _ => sheets _ _).andThen
    fun _ => advances_emit _ _

/-- A page is composed of the visits in it. -/
theorem composed_renderEnvelope
    (depth : Nat)
    (context : Context)
    (document : Document)
    (session : Session)
    (advances : ∀ visit ∈ (Site.ofPage environment depth context
      session).paragraphs environment document,
      visit.Advances environment begins) :
    Composed environment begins links
      ((Site.ofPage environment depth context session).paragraphs environment
        document)
      ((renderEnvelope environment (renderHashtag environment depth context)
        document session).from session) := by
  rw [renderEnvelope_eq]
  refine .between (advances_pageHead session)
    (pageHead_complete environment session) ?_ (by simp [Unlinked])
    (compositional_composed.paragraphs
      (Site.ofPage environment depth context session)
      fun visit member => .visit (advances visit member))
  simp [Unlinked, html_pageHead, externalStylesheet]

end Composition

end Page
end NotePress
