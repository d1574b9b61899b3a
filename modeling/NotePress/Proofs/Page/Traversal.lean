import NotePress.Page.Render

/-!
# What a render visits

A render goes through the blocks of a document in order, enters containers, and
continues in the documents that directives bring in. A visit is the moment at
which it takes up a block. The visits directly inside a visit come from the block
itself, so what holds of every render is proved by induction on visits.
-/

namespace NotePress
namespace Page

open Html (Piece Tag)
open Document (Block)

/-! ## Outcomes one after the other -/

/-- After what is complete comes what is next. -/
theorem Outcome.andThen_of_complete
    {first : Outcome}
    (complete : first.failure = none)
    (next : Session → Outcome) :
    first.andThen next =
      ⟨first.html ++ (next first.session).html, (next first.session).session,
        (next first.session).failure⟩ := by
  rw [Outcome.andThen, complete]

/-- After a failure comes nothing. -/
theorem Outcome.andThen_of_failure
    {first : Outcome}
    {error : RenderError}
    (failure : first.failure = some error)
    (next : Session → Outcome) :
    first.andThen next = first := by
  rw [Outcome.andThen, failure]

/-- Pieces that are written after something do not make it fail. -/
theorem failure_followed (first : Outcome) (pieces : List Piece) :
    (first.andThen (.emit pieces)).failure = first.failure := by
  cases complete : first.failure with
  | some error => rw [Outcome.andThen_of_failure complete, complete]
  | none =>
      rw [Outcome.andThen_of_complete complete]
      rfl

/-- Content between pieces fails as it does alone. -/
theorem failure_wrapped
    (before after : List Piece)
    (inside : Session → Outcome)
    (session : Session) :
    (wrapped before after inside session).failure =
      (inside (Outcome.emit before session).session).failure := by
  have opening : (Outcome.emit before session).failure = none := rfl
  rw [wrapped, failure_followed, Outcome.andThen_of_complete opening]

/-! ## Renders in turn -/

/-- Render things one after the other, until an error stops. -/
def inTurn
    {Item : Type}
    (render : Item → Session → Outcome) : List Item → Session → Outcome
  | [], session => .done session
  | first :: others, session =>
      (render first session).andThen (inTurn render others)

/-- The things that are taken up when they are rendered in turn, each with the
session it finds. -/
def begun
    {Item : Type}
    (render : Item → Session → Outcome) :
    List Item → Session → List (Item × Session)
  | [], _ => []
  | first :: others, session =>
      (first, session) ::
        match (render first session).failure with
        | some _ => []
        | none => begun render others (render first session).session

/-- What is taken up is among the things to render. -/
theorem mem_of_mem_begun
    {Item : Type}
    {render : Item → Session → Outcome}
    {items : List Item}
    {session : Session}
    {item : Item}
    {found : Session}
    (member : (item, found) ∈ begun render items session) :
    item ∈ items := by
  induction items generalizing session with
  | nil => cases member
  | cons first others inductionHypothesis =>
      rw [begun] at member
      rcases List.mem_cons.mp member with equal | later
      · obtain ⟨rfl, rfl⟩ := Prod.mk.inj equal
        exact List.mem_cons_self
      · split at later
        · cases later
        · exact List.mem_cons_of_mem first (inductionHypothesis later)

section Equations

variable
  (environment : Environment)
  (hashtags : Document.Hashtag → Session → Outcome)

/-- Write a cell of a table. -/
def renderCell (cell : List Block) (session : Session) : Outcome :=
  wrapped [.opening .cell []] [.closing .cell]
    (renderBlocks environment hashtags cell) session

/-- Write a row of a table. -/
def renderRow (row : List (List Block)) (session : Session) : Outcome :=
  wrapped [.opening .row []] [.closing .row]
    (renderCells environment hashtags row) session

/-- Blocks are rendered in turn. -/
theorem renderBlocks_eq_inTurn (blocks : List Block) (session : Session) :
    renderBlocks environment hashtags blocks session =
      inTurn (renderBlock environment hashtags) blocks session := by
  induction blocks generalizing session with
  | nil => rw [renderBlocks, inTurn]
  | cons first others inductionHypothesis =>
      rw [renderBlocks, inTurn, funext inductionHypothesis]

theorem renderCells_eq_inTurn
    (cells : List (List Block))
    (session : Session) :
    renderCells environment hashtags cells session =
      inTurn (renderCell environment hashtags) cells session := by
  induction cells generalizing session with
  | nil => rw [renderCells, inTurn]
  | cons first others inductionHypothesis =>
      rw [renderCells, inTurn, funext inductionHypothesis, renderCell]

theorem renderRows_eq_inTurn
    (rows : List (List (List Block)))
    (session : Session) :
    renderRows environment hashtags rows session =
      inTurn (renderRow environment hashtags) rows session := by
  induction rows generalizing session with
  | nil => rw [renderRows, inTurn]
  | cons first others inductionHypothesis =>
      rw [renderRows, inTurn, funext inductionHypothesis, renderRow]

/-- Paragraphs are rendered in turn. -/
theorem renderParagraphs_eq_inTurn (document : Document) (session : Session) :
    renderParagraphs environment hashtags document session =
      inTurn (renderParagraph environment hashtags) document session := by
  induction document generalizing session with
  | nil => rw [renderParagraphs, inTurn]
  | cons first others inductionHypothesis =>
      rw [renderParagraphs, inTurn, funext inductionHypothesis]

end Equations

/-! ## Transcluded documents -/

/-- The document that a hashtag brings in at its place, and the context in which
that document is rendered. -/
def transcluded?
    (environment : Environment)
    (context : Context)
    (hashtag : Document.Hashtag)
    (session : Session) : Option (Context × Document) :=
  match Directive.ofHashtag? hashtag with
  | some (.nested target) =>
      match locateSource session.disk (context.base.resolve target) with
      | .error _ => none
      | .ok source =>
          if context.visited.any (samePath (Location.path source)) then
            none
          else
            match loadSource session.disk source with
            | .error _ => none
            | .ok document =>
                some (⟨directoryOf source,
                  context.visited ++ [Location.path source]⟩, document)
  | some .autoNested =>
      match Source.indexedFolders session.disk context.base
          environment.options.indexFileName with
      | .error _ => none
      | .ok folders =>
          some (context, Source.indexDocument folders
            environment.options.indexFileName)
  | _ => none

/-- A hashtag that brings in a document writes the paragraphs of that
document. -/
theorem renderHashtag_of_transcluded
    {environment : Environment}
    {context inner : Context}
    {hashtag : Document.Hashtag}
    {document : Document}
    {session : Session}
    (brings : transcluded? environment context hashtag session =
      some (inner, document))
    (depth : Nat) :
    renderHashtag environment (depth + 1) context hashtag session =
      renderParagraphs environment (renderHashtag environment depth inner)
        document session := by
  rw [renderHashtag]
  unfold transcluded? at brings
  split at brings
  next target directive =>
    rw [directive]
    dsimp only
    cases located : locateSource session.disk
        (context.base.resolve target) with
    | error error =>
        rw [located] at brings
        cases brings
    | ok source =>
        rw [located] at brings
        dsimp only at brings ⊢
        by_cases visited :
            context.visited.any (samePath (Location.path source)) = true
        · rw [if_pos visited] at brings
          cases brings
        · rw [if_neg visited] at brings ⊢
          cases read : loadSource session.disk source with
          | error error =>
              rw [read] at brings
              cases brings
          | ok loaded =>
              rw [read] at brings
              cases brings
              rfl
  next directive =>
    rw [directive]
    dsimp only
    cases listed : Source.indexedFolders session.disk context.base
        environment.options.indexFileName with
    | error error =>
        rw [listed] at brings
        cases brings
    | ok folders =>
        rw [listed] at brings
        cases brings
        rfl
  next => cases brings

/-- The pieces of a directive that brings in no document. -/
def directivePieces (hashtag : Document.Hashtag) : Directive → List Piece
  | .link target title =>
      linkPieces (if Target.isSource target then Target.page target else target)
        title
  | .image source => [.void .image [.given "src" source]]
  | .other =>
      [.opening .span [.fixed "class" "hashtag"], .text hashtag.sourceText,
        .closing .span]
  | _ => []

/-! ## Linked documents -/

/-- The moment at which the page of a document is begun. -/
structure Compilation where
  depth : Nat
  source : Location
  session : Session

/-- What is answered when the page is made, and the session after it. -/
def Compilation.result
    (environment : Environment)
    (compilation : Compilation) : Except RenderError Path × Session :=
  compileAt environment (renderHashtag environment compilation.depth)
    compilation.source compilation.session

/-- The compilation that a hashtag starts: that of the source document it links to,
unless it was begun before. -/
def linked?
    (depth : Nat)
    (context : Context)
    (hashtag : Document.Hashtag)
    (session : Session) : Option Compilation :=
  match Directive.ofHashtag? hashtag with
  | some (.link target _) =>
      if Target.isSource target then
        match locateSource session.disk (context.base.resolve target) with
        | .error _ => none
        | .ok source =>
            if session.compiled.contains source then
              none
            else
              some ⟨depth, source, session⟩
      else
        none
  | _ => none

/-- A compilation is started by a link to a source document that is there and was not
begun before. -/
theorem link_of_linked
    {depth : Nat}
    {context : Context}
    {hashtag : Document.Hashtag}
    {session : Session}
    {next : Compilation}
    (links : linked? depth context hashtag session = some next) :
    ∃ target title source,
      Directive.ofHashtag? hashtag = some (.link target title) ∧
      Target.isSource target = true ∧
      locateSource session.disk (context.base.resolve target) = .ok source ∧
      source ∉ session.compiled ∧ next = ⟨depth, source, session⟩ := by
  unfold linked? at links
  split at links
  next target title directive =>
    split at links
    next isSource =>
      split at links
      next => cases links
      next source located =>
        split at links
        next => cases links
        next fresh =>
          cases links
          exact ⟨target, title, source, directive, isSource, located,
            fun begun => fresh (List.contains_iff_mem.mpr begun), rfl⟩
    next => cases links
  next => cases links

/-- A hashtag that starts a compilation writes its own pieces after it, or fails as
it does. -/
theorem renderHashtag_of_linked
    {environment : Environment}
    {depth : Nat}
    {context : Context}
    {hashtag : Document.Hashtag}
    {session : Session}
    {linked : Compilation}
    (links : linked? depth context hashtag session = some linked) :
    ∃ target title,
      Directive.ofHashtag? hashtag = some (.link target title) ∧
      Target.isSource target = true ∧
      linked.session = session ∧
      renderHashtag environment (depth + 1) context hashtag session =
        match linked.result environment with
        | (.error error, after) => .fail error after
        | (.ok _, after) => .emit (linkPieces (Target.page target) title) after := by
  obtain ⟨target, title, source, directive, isSource, located, fresh, rfl⟩ :=
    link_of_linked links
  refine ⟨target, title, directive, isSource, rfl, ?_⟩
  rw [renderHashtag, directive]
  dsimp only
  rw [if_pos isSource, located]
  dsimp only
  rw [if_neg fun begun => fresh (List.contains_iff_mem.mp begun)]
  rfl

/-! ## Refused hashtags -/

/-- An error of a file that is missing, cannot be read or does not build. -/
def RenderError.IsOfFile : RenderError → Prop
  | malformed _ | file _ | missingDocument _ => True
  | _ => False

/-- A source document that cannot be located is an error of its file. -/
theorem isOfFile_of_locateSource
    {disk : Disk}
    {path : Path}
    {error : RenderError}
    (fails : locateSource disk path = .error error) :
    error.IsOfFile := by
  rw [locateSource] at fails
  split at fails <;> cases fails <;> trivial

/-- A source document that cannot be loaded is an error of its file. -/
theorem isOfFile_of_loadSource
    {disk : Disk}
    {source : Location}
    {error : RenderError}
    (fails : loadSource disk source = .error error) :
    error.IsOfFile := by
  rw [loadSource] at fails
  split at fails
  next =>
    cases fails
    trivial
  next =>
    split at fails <;> cases fails
    trivial

/-- A source document is never too deep to be located. -/
theorem locateSource_ne_tooDeep
    {disk : Disk}
    {path : Path}
    {error : RenderError}
    (fails : locateSource disk path = .error error) :
    error ≠ .tooDeep := by
  rintro rfl
  exact isOfFile_of_locateSource fails

/-- What a hashtag is refused for: it is malformed, a file that it needs cannot be used,
or it nests a document in itself. -/
inductive Refuses
    (context : Context)
    (hashtag : Document.Hashtag)
    (session : Session) : RenderError → Prop
  | malformed
      (unknown : Directive.ofHashtag? hashtag = none) :
      Refuses context hashtag session (.malformedDirective hashtag.sourceText)
  | file
      {error : RenderError}
      (isOfFile : error.IsOfFile) :
      Refuses context hashtag session error
  | cyclic
      {target : String}
      {source : Location}
      (directive : Directive.ofHashtag? hashtag = some (.nested target))
      (located :
        locateSource session.disk (context.base.resolve target) = .ok source)
      (around :
        context.visited.any (samePath (Location.path source)) = true) :
      Refuses context hashtag session
        (.cyclicTransclusion (Location.path source) context.visited)

/-- Why a directive is refused. -/
def refusal?
    (environment : Environment)
    (context : Context)
    (session : Session) : Directive → Option RenderError
  | .link target _ =>
      if Target.isSource target then
        match locateSource session.disk (context.base.resolve target) with
        | .error error => some error
        | .ok _ => none
      else
        none
  | .nested target =>
      match locateSource session.disk (context.base.resolve target) with
      | .error error => some error
      | .ok source =>
          if context.visited.any (samePath (Location.path source)) then
            some (.cyclicTransclusion (Location.path source) context.visited)
          else
            match loadSource session.disk source with
            | .error error => some error
            | .ok _ => none
  | .autoNested =>
      match Source.indexedFolders session.disk context.base
          environment.options.indexFileName with
      | .error failure => some (.file failure)
      | .ok _ => none
  | _ => none

/-- What comes of a hashtag by itself: it is refused or writes its own pieces. -/
def ownOutcome
    (environment : Environment)
    (context : Context)
    (hashtag : Document.Hashtag)
    (session : Session) : Outcome :=
  match Directive.ofHashtag? hashtag with
  | none => .fail (.malformedDirective hashtag.sourceText) session
  | some directive =>
      match refusal? environment context session directive with
      | some error => .fail error session
      | none => .emit (directivePieces hashtag directive) session

section Alone

variable
  {environment : Environment}
  {context : Context}
  {hashtag : Document.Hashtag}
  {session : Session}

/-- What a directive is refused for is one of the reasons to refuse a hashtag. -/
theorem refuses_of_refusal
    {directive : Directive}
    (found : Directive.ofHashtag? hashtag = some directive)
    {error : RenderError}
    (refused : refusal? environment context session directive = some error) :
    Refuses context hashtag session error := by
  cases directive with
  | link target title =>
      rw [refusal?] at refused
      split at refused
      · split at refused <;> cases refused
        next fails => exact .file (isOfFile_of_locateSource fails)
      · cases refused
  | nested target =>
      rw [refusal?] at refused
      split at refused
      next fails =>
        cases refused
        exact .file (isOfFile_of_locateSource fails)
      next source located =>
        split at refused
        next around =>
          cases refused
          exact .cyclic found located around
        next =>
          split at refused <;> cases refused
          next fails => exact .file (isOfFile_of_loadSource fails)
  | autoNested =>
      rw [refusal?] at refused
      split at refused <;> cases refused
      exact .file trivial
  | image | other => cases refused

/-- A hashtag that brings in no document and starts no compilation is rendered by
itself. -/
theorem renderHashtag_eq_ownOutcome
    {depth : Nat}
    (alone : transcluded? environment context hashtag session = none)
    (unlinked : linked? depth context hashtag session = none) :
    renderHashtag environment (depth + 1) context hashtag session =
      ownOutcome environment context hashtag session := by
  rw [renderHashtag, ownOutcome]
  rw [transcluded?] at alone
  rw [linked?] at unlinked
  cases found : Directive.ofHashtag? hashtag with
  | none => rfl
  | some directive =>
      rw [found] at alone unlinked
      cases directive with
      | link target title =>
          dsimp only [refusal?, directivePieces] at unlinked ⊢
          split
          next isSource =>
            rw [if_pos isSource] at unlinked
            cases located : locateSource session.disk
                (context.base.resolve target) with
            | error error => rfl
            | ok source =>
                rw [located] at unlinked
                dsimp only at unlinked ⊢
                split at unlinked
                next begun => rw [if_pos begun]
                next => cases unlinked
          next => rfl
      | nested target =>
          dsimp only [refusal?] at alone ⊢
          cases located : locateSource session.disk
              (context.base.resolve target) with
          | error error => rfl
          | ok source =>
              rw [located] at alone
              dsimp only at alone ⊢
              split
              next => rfl
              next fresh =>
                rw [if_neg fresh] at alone
                cases reads : loadSource session.disk source with
                | error error => rfl
                | ok document =>
                    rw [reads] at alone
                    cases alone
      | autoNested =>
          dsimp only [refusal?] at alone ⊢
          cases listed : Source.indexedFolders session.disk context.base
              environment.options.indexFileName with
          | error failure => rfl
          | ok folders =>
              rw [listed] at alone
              cases alone
      | image | other => rfl

/-- A hashtag that brings in no document and starts no compilation is refused or
writes its own pieces. -/
theorem renderHashtag_of_alone
    {depth : Nat}
    (alone : transcluded? environment context hashtag session = none)
    (unlinked : linked? depth context hashtag session = none) :
    (∃ error, Refuses context hashtag session error ∧
      renderHashtag environment (depth + 1) context hashtag session =
        .fail error session) ∨
    ∃ directive, Directive.ofHashtag? hashtag = some directive ∧
      renderHashtag environment (depth + 1) context hashtag session =
        .emit (directivePieces hashtag directive) session := by
  rw [renderHashtag_eq_ownOutcome alone unlinked, ownOutcome]
  split
  next unknown => exact .inl ⟨_, .malformed unknown, rfl⟩
  next directive found =>
    split
    next error refused => exact .inl ⟨error, refuses_of_refusal found refused, rfl⟩
    next => exact .inr ⟨directive, found, rfl⟩

end Alone

/-- A hashtag that brings in no document is refused or writes its own pieces. -/
theorem renderHashtag_of_not_transcluded
    {environment : Environment}
    {context : Context}
    {hashtag : Document.Hashtag}
    {session : Session}
    {depth : Nat}
    (alone : depth = 0 ∨
      transcluded? environment context hashtag session = none) :
    (∃ error after, renderHashtag environment depth context hashtag session =
      .fail error after) ∨
    ∃ directive after, Directive.ofHashtag? hashtag = some directive ∧
      renderHashtag environment depth context hashtag session =
        .emit (directivePieces hashtag directive) after := by
  cases depth with
  | zero => exact .inl ⟨_, _, by rw [renderHashtag]⟩
  | succ depth =>
      replace alone := alone.resolve_left (Nat.succ_ne_zero depth)
      cases links : linked? depth context hashtag session with
      | none =>
          rcases renderHashtag_of_alone alone links with
            ⟨error, _, fails⟩ | ⟨directive, found, writes⟩
          · exact .inl ⟨error, session, fails⟩
          · exact .inr ⟨directive, session, found, writes⟩
      | some linked =>
          obtain ⟨target, title, directive, isSource, _, writes⟩ :=
            renderHashtag_of_linked links
          rw [writes]
          split
          next error after _ => exact .inl ⟨error, after, rfl⟩
          next path after _ =>
            refine .inr ⟨_, after, directive, ?_⟩
            rw [directivePieces, if_pos isSource]

/-! ## Visits -/

/-- Where a render is: how much deeper documents may bring in one another, the
context, the elements that are open, outermost first, and the session. -/
structure Site where
  depth : Nat
  context : Context
  around : List Tag
  session : Session

/-- The moment at which a render takes up a block. -/
structure Visit extends Site where
  block : Block

/-- The element that a piece opens. -/
def openedBy? : Piece → Option Tag
  | .opening tag _ => some tag
  | _ => none

namespace Site

variable (environment : Environment)

/-- How hashtags are written at a site. -/
def hashtags (site : Site) : Document.Hashtag → Session → Outcome :=
  renderHashtag environment site.depth site.context

/-- The site after pieces are written that open elements. -/
def enter (site : Site) (pieces : List Piece) : Site :=
  { site with
    around := site.around ++ pieces.filterMap openedBy?
    session := (Outcome.emit pieces site.session).session }

/-- The visits in things that are rendered in turn, given those in each. -/
def each
    {Item : Type}
    (site : Site)
    (render : Item → Session → Outcome)
    (inside : Site → Item → List Visit)
    (items : List Item) : List Visit :=
  (begun render items site.session).flatMap fun (item, session) =>
    inside { site with session := session } item

/-- The visits of blocks. -/
def blocks (site : Site) (blocks : List Block) : List Visit :=
  site.each (renderBlock environment (site.hashtags environment))
    (fun site block => [⟨site, block⟩]) blocks

/-- The visits in cells of a table. -/
def cells (site : Site) (cells : List (List Block)) : List Visit :=
  site.each (renderCell environment (site.hashtags environment))
    (fun site cell => (site.enter [.opening .cell []]).blocks environment cell)
    cells

/-- The visits in rows of a table. -/
def rows (site : Site) (rows : List (List (List Block))) : List Visit :=
  site.each (renderRow environment (site.hashtags environment))
    (fun site row => (site.enter [.opening .row []]).cells environment row)
    rows

/-- The visits in a document. -/
def paragraphs (site : Site) (document : Document) : List Visit :=
  site.each (renderParagraph environment (site.hashtags environment))
    (fun site paragraph =>
      (site.enter [.opening .paragraph []]).blocks environment paragraph)
    document

end Site

namespace Visit

variable (environment : Environment)

/-- What comes of a visit. -/
def outcome (visit : Visit) : Outcome :=
  renderBlock environment (visit.hashtags environment) visit.block
    visit.session

theorem outcome_mk (site : Site) (block : Block) :
    (Visit.mk site block).outcome environment =
      renderBlock environment (site.hashtags environment) block site.session :=
  rfl

/-- The visits directly inside a visit. -/
def inside (visit : Visit) : List Visit :=
  match visit.block with
  | .heading level children =>
      if 1 ≤ level ∧ level ≤ 6 then
        (visit.enter [.opening (.heading level) []]).blocks environment children
      else
        []
  | .styled style children =>
      (visit.enter [.opening (styleTag style) []]).blocks environment children
  | .orderedItem ordinal children =>
      (visit.enter
        [.opening .orderedList [.given "start" (toString ordinal)],
          .opening .item []]).blocks environment children
  | .unorderedItem children =>
      (visit.enter
        [.opening .unorderedList [], .opening .item []]).blocks environment
        children
  | .table rows =>
      (visit.enter [.opening .table [.fixed "class" "table"]]).rows environment
        rows
  | .hashtag hashtag =>
      match visit.depth with
      | 0 => []
      | depth + 1 =>
          match transcluded? environment visit.context hashtag
              visit.session with
          | none => []
          | some (context, document) =>
              { visit.toSite with depth := depth, context := context
                }.paragraphs environment document
  | _ => []

section Inside

variable
  {environment : Environment}
  {site : Site}

/-- What comes of a visit of a hashtag is what comes of the hashtag. -/
theorem outcome_hashtag
    {visit : Visit}
    {hashtag : Document.Hashtag}
    (block : visit.block = .hashtag hashtag) :
    visit.outcome environment =
      renderHashtag environment visit.depth visit.context hashtag
        visit.session := by
  rw [outcome, block, renderBlock]
  rfl

/-- Inside a visit of a heading are the visits of its children. -/
theorem inside_heading
    {level : Nat}
    {children : List Block}
    (valid : 1 ≤ level ∧ level ≤ 6) :
    (Visit.mk site (.heading level children)).inside environment =
      (site.enter [.opening (.heading level) []]).blocks environment
        children :=
  if_pos valid

/-- A heading of an invalid level is not entered. -/
theorem inside_invalidHeading
    {level : Nat}
    {children : List Block}
    (invalid : ¬(1 ≤ level ∧ level ≤ 6)) :
    (Visit.mk site (.heading level children)).inside environment = [] :=
  if_neg invalid

/-- Inside a visit of a hashtag that brings in a document are the visits in that
document. -/
theorem inside_transcluded
    {hashtag : Document.Hashtag}
    {depth : Nat}
    {context : Context}
    {document : Document}
    (deep : site.depth = depth + 1)
    (brings : transcluded? environment site.context hashtag site.session =
      some (context, document)) :
    (Visit.mk site (.hashtag hashtag)).inside environment =
      { site with depth := depth, context := context }.paragraphs environment
        document := by
  simp only [inside, deep, brings]

/-- Nothing is visited inside a hashtag that brings in no document. -/
theorem inside_alone
    {hashtag : Document.Hashtag}
    (alone : site.depth = 0 ∨
      transcluded? environment site.context hashtag site.session = none) :
    (Visit.mk site (.hashtag hashtag)).inside environment = [] := by
  unfold inside
  dsimp only
  split
  · rfl
  next depth deep =>
    rcases alone with shallow | alone
    · rw [shallow] at deep
      cases deep
    · rw [alone]

end Inside

end Visit

/-- The visits that a render comes to, given those it starts with. -/
inductive Reached
    (environment : Environment)
    (first : List Visit) : Visit → Prop
  | start
      {visit : Visit}
      (member : visit ∈ first) : Reached environment first visit
  | inside
      {outer inner : Visit}
      (reached : Reached environment first outer)
      (member : inner ∈ outer.inside environment) :
      Reached environment first inner

/-- Write what stands in a page before its document. -/
def pageHead (environment : Environment) (session : Session) : Outcome :=
  ((Outcome.emit
    [.opening .html [], .opening .head [],
      .void .link
        [.fixed "rel" "stylesheet", .given "href" Stylesheet.fileName]]
    session).andThen
      (renderStylesheets environment.options.externalStylesheets)).andThen
      (.emit [.closing .head, .opening .body []])

/-- The stylesheets of a page are written without failing. -/
theorem renderStylesheets_complete
    (hrefs : List String)
    (session : Session) :
    (renderStylesheets hrefs session).failure = none := by
  induction hrefs generalizing session with
  | nil => rfl
  | cons first others inductionHypothesis => exact inductionHypothesis _

/-- The stylesheets of a page are written in order. -/
theorem html_renderStylesheets
    (hrefs : List String)
    (session : Session) :
    (renderStylesheets hrefs session).html =
      hrefs.map externalStylesheet := by
  induction hrefs generalizing session with
  | nil => rfl
  | cons first others inductionHypothesis =>
      rw [List.map_cons, ← inductionHypothesis
        (Outcome.emit [externalStylesheet first] session).session]
      rfl

/-- The head of a page is written without failing. -/
theorem pageHead_complete (environment : Environment) (session : Session) :
    (pageHead environment session).failure = none := by
  rw [pageHead, Outcome.andThen_of_complete]
  · rfl
  · exact renderStylesheets_complete _ _

/-- The head of a page links the stylesheet of its directory and those that it was
given. -/
theorem html_pageHead (environment : Environment) (session : Session) :
    (pageHead environment session).html =
      [.opening .html [], .opening .head [],
        .void .link
          [.fixed "rel" "stylesheet", .given "href" Stylesheet.fileName]] ++
        environment.options.externalStylesheets.map externalStylesheet ++
        [.closing .head, .opening .body []] := by
  rw [pageHead, Outcome.andThen_of_complete]
  · rw [← html_renderStylesheets _ (Outcome.emit _ session).session]
    rfl
  · exact renderStylesheets_complete _ _

/-- The site at which a document is rendered alone. -/
def Site.ofDocument (context : Context) (session : Session) : Site :=
  ⟨depthBound session.disk, context, [], session⟩

/-- The site at which a document is rendered in its page. -/
def Site.ofPage
    (environment : Environment)
    (depth : Nat)
    (context : Context)
    (session : Session) : Site :=
  ⟨depth, context, [.html, .body], (pageHead environment session).session⟩

/-- A page is its head, its document and the closing tags. -/
theorem renderEnvelope_eq
    (environment : Environment)
    (hashtags : Document.Hashtag → Session → Outcome)
    (document : Document)
    (session : Session) :
    renderEnvelope environment hashtags document session =
      ((pageHead environment session).andThen
        (renderParagraphs environment hashtags document)).andThen
        (.emit [.closing .body, .closing .html]) :=
  rfl

/-! ## Induction on visits -/

section Members

variable
  {environment : Environment}
  {site : Site}
  {visit : Visit}

/-- A visit in things that are rendered in turn is in one of those that are taken up. -/
theorem Site.mem_each
    {Item : Type}
    {render : Item → Session → Outcome}
    {inside : Site → Item → List Visit}
    {items : List Item} :
    visit ∈ site.each render inside items ↔
      ∃ item session, (item, session) ∈ begun render items site.session ∧
        visit ∈ inside { site with session := session } item := by
  simp [Site.each, Prod.exists]

/-- Blocks are visited where they are. -/
theorem Site.mem_blocks
    {blocks : List Block}
    (member : visit ∈ site.blocks environment blocks) :
    ∃ block ∈ blocks, ∃ session,
      visit = ⟨{ site with session := session }, block⟩ := by
  obtain ⟨block, session, taken, member⟩ := Site.mem_each.mp member
  exact ⟨block, mem_of_mem_begun taken, session, List.mem_singleton.mp member⟩

/-- A visit in cells is of a block directly in one of them. -/
theorem Site.mem_cells
    {cells : List (List Block)}
    (member : visit ∈ site.cells environment cells) :
    ∃ cell ∈ cells, ∃ block ∈ cell, ∃ session,
      visit =
        ⟨{ site with
            around := site.around ++ [.cell]
            session := session }, block⟩ := by
  obtain ⟨cell, session, taken, member⟩ := Site.mem_each.mp member
  exact ⟨cell, mem_of_mem_begun taken, Site.mem_blocks member⟩

/-- A visit in rows is of a block directly in a cell of one of them. -/
theorem Site.mem_rows
    {rows : List (List (List Block))}
    (member : visit ∈ site.rows environment rows) :
    ∃ row ∈ rows, ∃ cell ∈ row, ∃ block ∈ cell, ∃ session,
      visit =
        ⟨{ site with
            around := site.around ++ [.row] ++ [.cell]
            session := session }, block⟩ := by
  obtain ⟨row, session, taken, member⟩ := Site.mem_each.mp member
  exact ⟨row, mem_of_mem_begun taken, Site.mem_cells member⟩

/-- A visit in a document is of a block directly in one of its paragraphs. -/
theorem Site.mem_paragraphs
    {document : Document}
    (member : visit ∈ site.paragraphs environment document) :
    ∃ paragraph ∈ document, ∃ block ∈ paragraph, ∃ session,
      visit =
        ⟨{ site with
            around := site.around ++ [.paragraph]
            session := session }, block⟩ := by
  obtain ⟨paragraph, session, taken, member⟩ := Site.mem_each.mp member
  exact ⟨paragraph, mem_of_mem_begun taken, Site.mem_blocks member⟩

/-- A visit inside another is of a part of its block at the same depth, or
deeper. The elements around the outer one are around it, and its context is the same
or that of a transcluded document. -/
structure Visit.Within
    (environment : Environment)
    (outer inner : Visit) : Prop where
  decreases : inner.depth < outer.depth ∨
    inner.depth = outer.depth ∧ sizeOf inner.block < sizeOf outer.block
  around : outer.around <+: inner.around
  context : inner.context = outer.context ∨
    ∃ hashtag document,
      transcluded? environment outer.context hashtag outer.session =
        some (inner.context, document)

/-- A visit inside another is within it. -/
theorem Visit.mem_inside
    {inner : Visit}
    (member : inner ∈ visit.inside environment) :
    visit.Within environment inner := by
  obtain ⟨site, block⟩ := visit
  -- Containers with blocks in them are entered in the same way.
  have entered : ∀ pieces children,
      inner ∈ (site.enter pieces).blocks environment children →
      sizeOf children < sizeOf block →
      (Visit.mk site block).Within environment inner := by
    intro pieces children member part
    obtain ⟨child, childMember, session, rfl⟩ := Site.mem_blocks member
    have smaller := List.sizeOf_lt_of_mem childMember
    exact ⟨.inr ⟨rfl, Nat.lt_trans smaller part⟩, List.prefix_append _ _,
      .inl rfl⟩
  cases block with
  | heading level children =>
      by_cases valid : 1 ≤ level ∧ level ≤ 6
      · rw [inside_heading valid] at member
        exact entered _ children member
          (by rw [Block.heading.sizeOf_spec]; omega)
      · rw [inside_invalidHeading valid] at member
        cases member
  | styled style children =>
      exact entered _ children member (by rw [Block.styled.sizeOf_spec]; omega)
  | orderedItem ordinal children =>
      exact entered _ children member
        (by rw [Block.orderedItem.sizeOf_spec]; omega)
  | unorderedItem children =>
      exact entered _ children member
        (by rw [Block.unorderedItem.sizeOf_spec]; omega)
  | table rows =>
      obtain ⟨row, rowMember, cell, cellMember, child, childMember, session,
        rfl⟩ := Site.mem_rows member
      have smaller := List.sizeOf_lt_of_mem childMember
      have cellSmaller := List.sizeOf_lt_of_mem cellMember
      have rowSmaller := List.sizeOf_lt_of_mem rowMember
      have part : sizeOf child < sizeOf (Block.table rows) := by
        rw [Block.table.sizeOf_spec]
        omega
      refine ⟨.inr ⟨rfl, part⟩, ?_, .inl rfl⟩
      exact (List.prefix_append _ _).trans
        ((List.prefix_append _ _).trans (List.prefix_append _ _))
  | hashtag hashtag =>
      by_cases alone : site.depth = 0 ∨
          transcluded? environment site.context hashtag site.session = none
      · rw [inside_alone alone] at member
        cases member
      · rw [not_or, ← Ne, ← Ne, Option.ne_none_iff_exists'] at alone
        obtain ⟨notShallow, ⟨context, document⟩, brings⟩ := alone
        obtain ⟨depth, deep⟩ := Nat.exists_eq_succ_of_ne_zero notShallow
        rw [inside_transcluded deep brings] at member
        obtain ⟨paragraph, _, block, _, session, rfl⟩ :=
          Site.mem_paragraphs member
        refine ⟨.inl ?_, List.prefix_append _ _, .inr ⟨hashtag, document, brings⟩⟩
        rw [deep]
        exact Nat.lt_succ_self depth
  | _ => cases member

/-- The elements around the visits that a render starts with are around all that
it comes to. -/
theorem Reached.around
    {visits : List Visit}
    {tags : List Tag}
    (start : ∀ first ∈ visits, tags <+: first.around)
    (reached : Reached environment visits visit) :
    tags <+: visit.around := by
  induction reached with
  | start member => exact start _ member
  | inside _ member inductionHypothesis =>
      exact inductionHypothesis.trans (Visit.mem_inside member).around

end Members

/-- What holds of a visit whenever it holds of the visits directly inside and of all
visits of less depth holds of every visit. -/
theorem Visit.inductionBelow
    (environment : Environment)
    {motive : Visit → Prop}
    (step : ∀ visit : Visit,
      (∀ inner ∈ visit.inside environment, motive inner) →
      (∀ lower : Visit, lower.depth < visit.depth → motive lower) →
      motive visit)
    (visit : Visit) :
    motive visit :=
  step visit
    (fun inner member =>
      have := (Visit.mem_inside member).decreases
      Visit.inductionBelow environment step inner)
    (fun lower _ => Visit.inductionBelow environment step lower)
termination_by (visit.depth, sizeOf visit.block)
decreasing_by
  · rcases (Visit.mem_inside member).decreases with deeper | ⟨equal, smaller⟩
    · exact Prod.Lex.left _ _ deeper
    · rw [equal]
      exact Prod.Lex.right _ smaller
  · next lessDepth => exact Prod.Lex.left _ _ lessDepth

/-- What holds of a visit whenever it holds of the visits directly inside holds of
every visit. -/
theorem Visit.induction
    (environment : Environment)
    {motive : Visit → Prop}
    (step : ∀ visit : Visit,
      (∀ inner ∈ visit.inside environment, motive inner) → motive visit)
    (visit : Visit) :
    motive visit :=
  Visit.inductionBelow environment (fun visit inside _ => step visit inside)
    visit

end Page
end NotePress
