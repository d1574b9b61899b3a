import Mathlib.Logic.Relation
import NotePress.Proofs.Page.Coverage
import NotePress.Proofs.Page.Histories
import NotePress.Proofs.Page.Termination

/-!
# Which documents are compiled

What a document brings in, and which documents it links to, can be told from a disk
alone. As outputs are not taken for documents, every session of a run tells the same.
So a run that completes compiles the documents that can be reached by links, each of
them once.
-/

namespace NotePress
namespace Page

open Html (Piece)
open Disk (Grows)
open Relation (ReflTransGen)

/-! ## Links between documents -/

/-- A document that is rendered in a page, and the directory that its targets are seen
from. -/
structure Part where
  base : Path
  document : Document

/-- What a hashtag brings in. -/
def included?
    (environment : Environment)
    (disk : Disk)
    (base : Path)
    (hashtag : Document.Hashtag) : Option Part :=
  match Directive.ofHashtag? hashtag with
  | some (.nested target) =>
      match locateSource disk (base.resolve target) with
      | .error _ => none
      | .ok source =>
          match loadSource disk source with
          | .error _ => none
          | .ok document => some ⟨directoryOf source, document⟩
  | some .autoNested =>
      match Source.indexedFolders disk base environment.options.indexFileName with
      | .error _ => none
      | .ok folders =>
          some ⟨base,
            Source.indexDocument folders environment.options.indexFileName⟩
  | _ => none

/-- The document that a hashtag links to. -/
def linkedSource?
    (disk : Disk)
    (base : Path)
    (hashtag : Document.Hashtag) : Option Location :=
  match Directive.ofHashtag? hashtag with
  | some (.link target _) =>
      if Target.isSource target then
        match locateSource disk (base.resolve target) with
        | .error _ => none
        | .ok source => some source
      else
        none
  | _ => none

/-- A part of a page brings in another. -/
def Includes
    (environment : Environment)
    (disk : Disk)
    (part inner : Part) : Prop :=
  ∃ hashtag ∈ hashtagsInGroups part.document,
    included? environment disk part.base hashtag = some inner

/-- The parts of the page of a document: the document itself, and what is brought
in. -/
def HasPart
    (environment : Environment)
    (disk : Disk)
    (source : Location)
    (part : Part) : Prop :=
  ∃ document, loadSource disk source = .ok document ∧
    ReflTransGen (Includes environment disk) ⟨directoryOf source, document⟩ part

/-- A document links to another, itself or in a document that it brings in. -/
def LinksTo
    (environment : Environment)
    (disk : Disk)
    (source linked : Location) : Prop :=
  ∃ part, HasPart environment disk source part ∧
    ∃ hashtag ∈ hashtagsInGroups part.document,
      linkedSource? disk part.base hashtag = some linked

/-! ## What a session tells -/

section Told

variable
  {environment : Environment}
  {disk : Disk}
  (orderly : disk.IsOrderly)

/-- Documents read in a session as on the disk that it shows. -/
theorem Session.Shows.loadSource
    {session : Session}
    (shows : session.Shows disk)
    {source : Location}
    (found : ∃ index, session.disk.entryAt? source = some (.file index))
    (isDocument : source.IsDocument) :
    Page.loadSource disk source = Page.loadSource session.disk source := by
  obtain ⟨index, found⟩ := found
  exact shows.alike.symm.loadSource shows.grows.orderly found
    isDocument.not_isOutput

omit orderly in
/-- The index documents that a visit lists are no outputs. -/
theorem indexesSeen_of_finds
    {visit : Visit}
    (finds : ∀ source ∈ visit.finds environment, source.IsDocument)
    (autoNested : visit.directive? = some .autoNested) :
    Source.IndexesSeen visit.session.disk visit.context.base
      environment.options.indexFileName :=
  fun _ lists _ member source located =>
    (finds source (mem_finds_of_listed autoNested lists member
      located)).not_isOutput

include orderly

/-- What a hashtag brings in at a visit is told from every disk that shows the
same. -/
theorem included_of_transcluded
    {visit : Visit}
    (visitOrderly : visit.session.disk.IsOrderly)
    (alike : Disk.Alike visit.session.disk disk)
    (finds : ∀ source ∈ visit.finds environment, source.IsDocument)
    (seen : visit.directive? = some .autoNested →
      Source.IndexesSeen disk visit.context.base
        environment.options.indexFileName)
    {hashtag : Document.Hashtag}
    (block : visit.block = .hashtag hashtag)
    {inner : Context}
    {document : Document}
    (brings : transcluded? environment visit.context hashtag visit.session =
      some (inner, document)) :
    included? environment disk visit.context.base hashtag =
      some ⟨inner.base, document⟩ := by
  have takesUp := directive_of_block block
  cases transcluded_iff.mp brings with
  | @nested target source document directive located fresh reads =>
      have isDocument := finds source
        (mem_finds_of_nested (takesUp.trans directive) located)
      obtain ⟨index, found⟩ := (locateSource_iff.mp located).2
      rw [included?, directive]
      dsimp only
      rw [alike.locateSource located isDocument.not_isOutput]
      dsimp only
      rw [alike.loadSource visitOrderly found isDocument.not_isOutput, reads]
  | @autoNested folders directive lists =>
      have autoNested := takesUp.trans directive
      rw [included?, directive]
      dsimp only
      rw [alike.indexedFolders visitOrderly orderly lists
        (indexesSeen_of_finds finds autoNested) (seen autoNested)]

/-- What a hashtag brings in at a visit is told from the disk that its session
shows. -/
theorem Session.Shows.included
    {visit : Visit}
    (shows : visit.session.Shows disk)
    (finds : ∀ source ∈ visit.finds environment, source.IsDocument)
    {hashtag : Document.Hashtag}
    (block : visit.block = .hashtag hashtag)
    {inner : Context}
    {document : Document}
    (brings : transcluded? environment visit.context hashtag visit.session =
      some (inner, document)) :
    included? environment disk visit.context.base hashtag =
      some ⟨inner.base, document⟩ :=
  included_of_transcluded orderly shows.grows.orderly shows.alike.symm finds
    (fun autoNested =>
      shows.grows.indexesSeen orderly (indexesSeen_of_finds finds autoNested))
    block brings

omit orderly in
/-- What a link leads to at a visit is told from the disk. -/
theorem linkedSource_of_located
    {visit : Visit}
    (shows : visit.session.Shows disk)
    (finds : ∀ source ∈ visit.finds environment, source.IsDocument)
    {hashtag : Document.Hashtag}
    (block : visit.block = .hashtag hashtag)
    {target title : String}
    (directive : Directive.ofHashtag? hashtag = some (.link target title))
    (isSource : Target.isSource target = true)
    {source : Location}
    (located : locateSource visit.session.disk
      (visit.context.base.resolve target) = .ok source) :
    linkedSource? disk visit.context.base hashtag = some source := by
  have isDocument := finds source (mem_finds_of_link
    ((directive_of_block block).trans directive) isSource located)
  rw [linkedSource?, directive]
  dsimp only
  rw [if_pos isSource,
    shows.alike.symm.locateSource located isDocument.not_isOutput]

/-! ## Visits are in parts -/

variable
  (alone : LeavesAlone environment.machine)
  {page : Compilation}
  (sound : page.IsSound environment)
  (shows : page.session.Shows disk)

include alone sound shows

omit orderly in
/-- Every visit in a page sees what the disk shows, and finds documents. -/
theorem shows_of_reached
    {visit : Visit}
    (reached : Reached environment (page.visits environment) visit) :
    visit.session.Shows disk ∧
      ∀ source ∈ visit.finds environment, source.IsDocument :=
  ⟨reached.occurs.shows alone sound.finds
      fun _ member => sound.shows alone shows member,
    sound.finds visit reached.occurs⟩

/-- Every visit in a page is in a part of it. -/
theorem hasPart_of_reached
    {visit : Visit}
    (reached : Reached environment (page.visits environment) visit) :
    ∃ part, HasPart environment disk page.source part ∧
      visit.context.base = part.base ∧
      ∀ hashtag ∈ hashtagsInBlock visit.block,
        hashtag ∈ hashtagsInGroups part.document := by
  induction reached with
  | @start visit member =>
      have context := (Compilation.mem_visits member).2
      rw [Compilation.visits] at member
      split at member
      next => cases member
      next opened document opens =>
        obtain ⟨paragraph, paragraphMember, block, blockMember, session, rfl⟩ :=
          Site.mem_paragraphs member
        have reads := (shows.loadSource sound.met.found sound.met.isDocument).trans
          (Compilation.of_opened opens).1
        exact ⟨⟨directoryOf page.source, document⟩, ⟨document, reads, .refl⟩,
          congrArg Context.base context, fun _ inBlock =>
            mem_hashtagsInGroups paragraphMember
              (mem_hashtagsInBlocks blockMember inBlock)⟩
  | @inside outer inner reached member inductionHypothesis =>
      obtain ⟨part, ⟨document, reads, includes⟩, base, among⟩ :=
        inductionHypothesis
      rcases Visit.document_cases member with
        ⟨_, context, subset⟩ | ⟨hashtag, brought, block, _, brings, subset⟩
      · exact ⟨part, ⟨document, reads, includes⟩,
          (congrArg Context.base context).trans base,
          fun hashtag inBlock => among hashtag (subset hashtag inBlock)⟩
      · obtain ⟨seen, finds⟩ := shows_of_reached alone sound shows reached
        have included := seen.included orderly finds block brings
        rw [base] at included
        have here : hashtag ∈ hashtagsInGroups part.document := by
          refine among hashtag ?_
          rw [block, hashtagsInBlock]
          exact List.mem_cons_self
        exact ⟨⟨inner.context.base, brought⟩,
          ⟨document, reads, includes.tail ⟨hashtag, here, included⟩⟩, rfl, subset⟩

/-- A compilation that is started in a page is that of a document which the document
of the page links to. -/
theorem linksTo_of_starts
    {visit : Visit}
    (reached : Reached environment (page.visits environment) visit)
    {next : Compilation}
    (starts : visit.starts? = some next) :
    LinksTo environment disk page.source next.source := by
  obtain ⟨target, title, start⟩ := startsBy_of_starts starts
  obtain ⟨hashtag, block, directive⟩ := block_of_directive start.link
  obtain ⟨part, hasPart, base, among⟩ :=
    hasPart_of_reached orderly alone sound shows reached
  obtain ⟨seen, finds⟩ := shows_of_reached alone sound shows reached
  have linked := linkedSource_of_located seen finds block directive start.isSource
    start.located
  rw [base] at linked
  refine ⟨part, hasPart, hashtag, among hashtag ?_, linked⟩
  rw [block, hashtagsInBlock]
  exact List.mem_cons_self

/-! ## Pages that complete -/

omit orderly alone sound shows in
/-- A hashtag that is to bring in a document does so when it completes. -/
theorem transcluded_of_complete
    {depth : Nat}
    {context : Context}
    {hashtag : Document.Hashtag}
    {session : Session}
    (directive : (∃ target,
        Directive.ofHashtag? hashtag = some (.nested target)) ∨
      Directive.ofHashtag? hashtag = some .autoNested)
    (complete : (renderHashtag environment depth context hashtag
      session).failure = none) :
    ∃ below inner document, depth = below + 1 ∧
      transcluded? environment context hashtag session =
        some (inner, document) := by
  cases depth with
  | zero =>
      rw [renderHashtag] at complete
      cases complete
  | succ below =>
      rw [renderHashtag] at complete
      rcases directive with ⟨target, nested⟩ | autoNested
      · rw [nested] at complete
        dsimp only at complete
        split at complete
        next => cases complete
        next source located =>
          split at complete
          next => cases complete
          next fresh =>
            split at complete
            next => cases complete
            next document reads =>
              exact ⟨below, _, document, rfl, transcluded_iff.mpr
                (.nested nested located (Bool.eq_false_iff.mpr fresh) reads)⟩
      · rw [autoNested] at complete
        dsimp only at complete
        split at complete
        next => cases complete
        next folders lists =>
          exact ⟨below, _, _, rfl,
            transcluded_iff.mpr (.autoNested autoNested lists)⟩

omit orderly alone sound shows in
theorem directive_of_included
    {base : Path}
    {hashtag : Document.Hashtag}
    {part : Part}
    (included : included? environment disk base hashtag = some part) :
    (∃ target, Directive.ofHashtag? hashtag = some (.nested target)) ∨
      Directive.ofHashtag? hashtag = some .autoNested := by
  rw [included?] at included
  split at included
  next target directive => exact .inl ⟨target, directive⟩
  next directive => exact .inr directive
  next => cases included

/-- A site in a page at which a part is rendered to its end. -/
structure Renders
    (environment : Environment)
    (page : Compilation)
    (part : Part)
    (site : Site) : Prop where
  base : site.context.base = part.base
  complete : (renderParagraphs environment (site.hashtags environment)
    part.document site.session).failure = none
  reached : ∀ visit ∈ site.paragraphs environment part.document,
    Reached environment (page.visits environment) visit

omit orderly alone sound shows in
/-- A hashtag of a part that is rendered is taken up. -/
theorem Renders.takesUp
    {part : Part}
    {site : Site}
    (renders : Renders environment page part site)
    {hashtag : Document.Hashtag}
    (member : hashtag ∈ hashtagsInGroups part.document) :
    ∃ visit, TakesUp environment (page.visits environment) site.context hashtag
      visit := by
  obtain ⟨visit, takesUp⟩ := takesUp_of_complete renders.complete member
  exact ⟨visit, takesUp.reached.trans renders.reached, takesUp.block,
    takesUp.context, takesUp.complete⟩

/-- What a part that is rendered brings in is rendered. -/
theorem Renders.included
    {part inner : Part}
    {site : Site}
    (renders : Renders environment page part site)
    (includes : Includes environment disk part inner) :
    ∃ within, Renders environment page inner within := by
  obtain ⟨hashtag, member, included⟩ := includes
  obtain ⟨visit, takesUp⟩ := renders.takesUp member
  obtain ⟨seen, finds⟩ := shows_of_reached alone sound shows takesUp.reached
  obtain ⟨reached, block, context, complete⟩ := takesUp
  obtain ⟨found, taken⟩ := visit
  dsimp only at block context
  subst block
  rw [Visit.outcome, renderBlock] at complete
  obtain ⟨below, context', document, deep, brings⟩ :=
    transcluded_of_complete (directive_of_included included) complete
  have same := seen.included orderly finds rfl brings
  rw [context, renders.base] at same
  obtain rfl := Option.some.inj (included.symm.trans same)
  rw [Site.hashtags, deep,
    renderHashtag_of_transcluded brings] at complete
  refine ⟨{ found with depth := below, context := context' }, rfl, complete,
    fun inside within => .inside reached ?_⟩
  rw [Visit.inside_transcluded deep brings]
  exact within

/-- Every part of a page that completes is rendered. -/
theorem exists_renders
    (complete : (page.result environment).1.isOk = true)
    {part : Part}
    (hasPart : HasPart environment disk page.source part) :
    ∃ site, Renders environment page part site := by
  obtain ⟨document, reads, includes⟩ := hasPart
  induction includes with
  | refl =>
      obtain ⟨opened, loaded, opens⟩ := Compilation.exists_opened complete
      have same := (shows.loadSource sound.met.found
        sound.met.isDocument).trans (Compilation.of_opened opens).1
      obtain rfl := Except.ok.inj (reads.symm.trans same)
      obtain ⟨body, rendered, _, whole⟩ := Compilation.html_of_opened opens
      refine ⟨Site.ofPage environment page.depth page.context opened, rfl, ?_,
        fun visit member => .start ?_⟩
      · have finished := whole.mp complete
        rw [rendered] at finished
        exact finished
      · rw [Compilation.visits, opens]
        exact member
  | tail _ step inductionHypothesis =>
      obtain ⟨site, renders⟩ := inductionHypothesis
      exact renders.included orderly alone sound shows step

/-- What the document of a page links to is linked in the page, when it completes. -/
theorem taken_of_linksTo
    (complete : (page.result environment).1.isOk = true)
    {linked : Location}
    (links : LinksTo environment disk page.source linked) :
    ∃ visit, Reached environment (page.visits environment) visit ∧
      (linked ∈ visit.session.compiled ∨
        ∃ next, visit.starts? = some next ∧ next.source = linked) := by
  obtain ⟨part, hasPart, hashtag, member, leads⟩ := links
  obtain ⟨site, renders⟩ :=
    exists_renders orderly alone sound shows complete hasPart
  obtain ⟨visit, takesUp⟩ := renders.takesUp member
  obtain ⟨seen, finds⟩ := shows_of_reached alone sound shows takesUp.reached
  have told := leads
  rw [linkedSource?] at told
  split at told
  next target title directive =>
    split at told
    next isSource =>
      obtain ⟨_, source, located, taken⟩ := outcome_of_link
        ((directive_of_block takesUp.block).trans directive) isSource
        takesUp.complete
      have same := linkedSource_of_located seen finds takesUp.block directive
        isSource located
      rw [takesUp.context, renders.base] at same
      obtain rfl := Option.some.inj (leads.symm.trans same)
      exact ⟨visit, takesUp.reached, taken⟩
    next => cases told
  next => cases told

end Told

/-! ## Compilations of a run -/

section Runs

variable
  {environment : Environment}
  {first page : Compilation}

/-- What is started during a compilation is a compilation of its run. -/
theorem opened_of_mem_started
    {other : Compilation}
    (member : other ∈ first.started environment) :
    Opened environment first other := by
  rcases List.mem_cons.mp member with rfl | within
  · exact .start
  · obtain ⟨visit, among, started⟩ := List.mem_flatMap.mp within
    obtain ⟨found, occurs, starts⟩ := occurs_of_mem_started started
    obtain ⟨page, opened, reached⟩ := exists_opened_of_occurs .start
      (occurs.trans (List.forall_mem_singleton.mpr (.start among)))
    exact .link opened reached starts

/-- What counts as compiled at a visit, or in a page, counts as compiled after the
run. -/
theorem Opened.compiled_visit
    (opened : Opened environment first page)
    {visit : Visit}
    (reached : Reached environment (page.visits environment) visit) :
    visit.session.compiled ⊆ (first.result environment).2.compiled :=
  List.Subset.trans (opened.advances reached).compiled
    ((opened.partOf_visit reached).trans opened.partOf).after.compiled

theorem Opened.mem_compiled (opened : Opened environment first page) :
    page.source ∈ (first.result environment).2.compiled := by
  refine opened.partOf.after.compiled ?_
  have whole : (page.result environment).2.compiled = _ :=
    page.compiled_result.1
  rw [Compilation.stretch, whole]
  exact List.mem_append_left _ Compilation.mem_begun

/-- When a run completes, so does every compilation of it. -/
theorem Opened.isOk
    (opened : Opened environment first page)
    (complete : (first.result environment).1.isOk = true) :
    (page.result environment).1.isOk = true := by
  have whole : (first.stretch environment).failure = none := by
    rw [Compilation.stretch]
    dsimp only
    split
    next failed =>
      rw [failed] at complete
      cases complete
    next => rfl
  rw [Compilation.answer_of_complete (opened.partOf.complete whole)]
  rfl

variable
  (alone : LeavesAlone environment.machine)
  {disk : Disk}
  (sound : first.IsSound environment)
  (shows : first.session.Shows disk)

include alone sound shows

/-- Every compilation of a run is sound, and begins with what the disk shows. -/
theorem Opened.isSound_and_shows (opened : Opened environment first page) :
    page.IsSound environment ∧ page.session.Shows disk := by
  induction opened with
  | start => exact ⟨sound, shows⟩
  | link _ reached starts inductionHypothesis =>
      obtain ⟨pageSound, pageShows⟩ := inductionHypothesis
      refine ⟨pageSound.finds.isSound reached.occurs starts, ?_⟩
      rw [session_of_starts starts]
      exact (shows_of_reached alone pageSound pageShows reached).1

variable (orderly : disk.IsOrderly)

include orderly

/-- What is compiled in a run is reached by links. -/
theorem Opened.reachable (opened : Opened environment first page) :
    ReflTransGen (LinksTo environment disk) first.source page.source := by
  induction opened with
  | start => exact .refl
  | link opened reached starts inductionHypothesis =>
      obtain ⟨pageSound, pageShows⟩ :=
        opened.isSound_and_shows alone sound shows
      exact inductionHypothesis.tail
        (linksTo_of_starts orderly alone pageSound pageShows reached starts)

/-- What a document of a run links to counts as compiled after it, when the run
completes. -/
theorem Opened.mem_of_linksTo
    (opened : Opened environment first page)
    (complete : (first.result environment).1.isOk = true)
    {linked : Location}
    (links : LinksTo environment disk page.source linked) :
    linked ∈ (first.result environment).2.compiled := by
  obtain ⟨pageSound, pageShows⟩ := opened.isSound_and_shows alone sound shows
  obtain ⟨visit, reached, before | ⟨next, starts, rfl⟩⟩ := taken_of_linksTo orderly
    alone pageSound pageShows (opened.isOk complete) links
  · exact opened.compiled_visit reached before
  · exact Opened.mem_compiled (.link opened reached starts)

omit orderly in
/-- After a run that completes, the page of each of its compilations reads as what the
compilation wrote. -/
theorem readText_of_mem_started
    (idle : first.session.page = none)
    (complete : (first.result environment).1.isOk = true)
    (member : page ∈ first.started environment) :
    (first.result environment).2.disk.readText
        (Location.path page.source).page =
      .ok (Html.print (page.html environment)) := by
  have made := opened_of_mem_started member
  obtain ⟨pageSound, pageShows⟩ := made.isSound_and_shows alone sound shows
  have whole := made.isOk complete
  obtain ⟨opened, document, opens⟩ := Compilation.exists_opened whole
  obtain ⟨owner, tidy⟩ := shows.tidy
  have unowned : first.session.IsTidy none :=
    Session.isTidy_of_idle tidy.orderly idle
  have ran := first.ran alone unowned sound.isMet
  have after := ran.shows unowned shows.grows sound.isMet
  obtain ⟨_, pageTidy⟩ := pageShows.tidy
  have there := Compilation.locate_opened pageTidy pageSound.met opens
  have during := Compilation.shows_opened pageShows pageSound.met opens
  refine Disk.readText_of_contentAt
    (after.alike.locate (during.alike.symm.locate there))
    (ran.pages page member (by rw [opens]; rfl)) ?_
  obtain ⟨body, html⟩ := Compilation.isWhole_iff.mpr whole
  rw [html]
  simp only [List.append_assoc, List.cons_append]
  intro empty
  rw [← List.singleton_append, Html.print_append] at empty
  exact absurd (String.append_eq_empty_iff.mp empty).1 (by decide)

end Runs

/-- A compilation that made the page of its document. While it was at it, the page was
not opened again, and after all the page is whole. -/
structure Compilation.Publishes
    (environment : Environment)
    (page : Compilation)
    (last : Session) : Prop where
  opened : (page.opened? environment).isSome = true
  undisturbed : ∀ other ∈ page.within environment,
    other.source.page ≠ page.source.page
  whole : page.IsWhole environment
  reads : last.disk.readText (Location.path page.source).page =
    .ok (Html.print (page.html environment))

/-- When the page of a document is made and nothing fails, the documents that are
compiled are those that can be reached from it by links. The page of each is made
once, not opened while it is written, and whole in the end. -/
theorem compiled_iff_reachable
    {environment : Environment}
    (alone : LeavesAlone environment.machine)
    {disk : Disk}
    (orderly : disk.IsOrderly)
    {path : Path}
    (sound : ∀ called, called? path { disk := disk } = some called →
      called.IsSound environment)
    (complete :
      (compileFile environment path { disk := disk }).1.isOk = true) :
    let last := (compileFile environment path { disk := disk }).2
    ∃ first, called? path { disk := disk } = some first ∧
      (∀ source, source ∈ last.compiled ↔
        ReflTransGen (LinksTo environment disk) first.source source) ∧
      Runs environment { disk := disk } [] (first.started environment) last ∧
      last.compiled = sourcesOf (first.started environment) ∧
      ((first.started environment).map fun page => page.source.page).Nodup ∧
      ∀ page ∈ first.started environment, page.Publishes environment last := by
  obtain ⟨first, calls⟩ := exists_called complete
  obtain ⟨same, results⟩ := @compileFile_of_called environment _ _ _ calls
  rw [results] at complete
  have firstSound := sound first calls
  have tidy : first.session.IsTidy none := by
    rw [same]
    exact Session.isTidy_of_idle orderly rfl
  have shows : first.session.Shows disk := by
    have itself := tidy.shows
    rw [same] at itself ⊢
    exact itself
  have idle : first.session.page = none := tidy.idle rfl
  have begun : first.begun.compiled = [first.source] := by
    -- Nothing was compiled before the call.
    rw [compiled_begun_of_fresh] <;> rw [same]
    · rfl
    · exact List.not_mem_nil
  obtain ⟨compiled, distinct, new⟩ := @Compilation.compiled_result environment first
  rw [begun] at compiled new
  replace compiled : (first.result environment).2.compiled =
      sourcesOf (first.started environment) := compiled
  have sources : (sourcesOf (first.started environment)).Nodup :=
    List.nodup_cons.mpr
      ⟨fun member => new _ member List.mem_cons_self, distinct⟩
  have met := firstSound.isMet
  dsimp only
  rw [results]
  refine ⟨first, calls, fun source => ⟨fun member => ?_, fun reaches => ?_⟩, ?_,
    compiled, ?_, fun page member => ⟨?_, ?_, ?_, ?_⟩⟩
  · rw [compiled] at member
    obtain ⟨page, started, rfl⟩ := List.mem_map.mp member
    -- Each document that is compiled was come to by links.
    exact (opened_of_mem_started started).reachable alone firstSound shows orderly
  -- And links lead only to documents that are compiled, by induction along them.
  · induction reaches with
    | refl => exact Opened.start.mem_compiled
    | tail _ links inductionHypothesis =>
        rw [compiled] at inductionHypothesis
        obtain ⟨page, started, rfl⟩ := List.mem_map.mp inductionHypothesis
        exact (opened_of_mem_started started).mem_of_linksTo alone firstSound shows
          orderly complete links
  · rw [← same]
    exact Compilation.runs fun visit _ => visit.course
  · have pages : ((first.started environment).map fun page => page.source.page) =
        (sourcesOf (first.started environment)).map Location.page := by
      rw [sourcesOf, List.map_map]
      rfl
    rw [pages]
    refine sources.map_on fun left leftMember right rightMember => ?_
    obtain ⟨leftPage, leftStarted, rfl⟩ := List.mem_map.mp leftMember
    obtain ⟨rightPage, rightStarted, rfl⟩ := List.mem_map.mp rightMember
    exact (met leftPage leftStarted).isDocument.eq_of_page
      (met rightPage rightStarted).isDocument
  · obtain ⟨opened, document, opens⟩ := Compilation.exists_opened
      ((opened_of_mem_started member).isOk complete)
    rw [opens]
    rfl
  · intro other within samePage
    have pageSound := ((opened_of_mem_started member).isSound_and_shows alone
      firstSound shows).1
    -- A page that is made while this one is open belongs to a document that was not
    -- begun, so to another one.
    refine (@Compilation.compiled_result environment page).2.2 other.source
      (List.mem_map_of_mem within) ?_
    rw [(pageSound.isMet other (List.mem_cons_of_mem _ within)).isDocument.eq_of_page
      pageSound.met.isDocument samePage]
    exact Compilation.mem_begun
  · exact Compilation.isWhole_iff.mpr
      ((opened_of_mem_started member).isOk complete)
  · exact readText_of_mem_started alone firstSound shows idle complete member

/-- A document brings in another one, whose link leads to a third one. What is linked
is compiled, what is only brought in is not. -/
theorem compiled_iff_reachable_nested :
    let environment : Environment :=
      ⟨{ externalStylesheets := [] }, fun disk _ _ => (.ok "", disk)⟩
    let disk : Disk :=
      { entries :=
          [(["notes"], .directory), (["notes", "a.scrip"], .file 0),
            (["notes", "sub"], .directory),
            (["notes", "sub", "b.scrip"], .file 1),
            (["notes", "c.scrip"], .file 2)]
        nodes :=
          #[{ content := .ofText "#Nested\x7bsub/b.scrip\x7d" },
            { content := .ofText "#Link\x7b../c.scrip\x7d" },
            { content := .ofText "c" }]
        workingDirectory := ["notes"] }
    let path : Path := ⟨"a.scrip"⟩
    LeavesAlone environment.machine ∧ disk.IsOrderly ∧
      (∀ called, called? path { disk := disk } = some called →
        called.IsSound environment) ∧
      (compileFile environment path { disk := disk }).1.isOk = true ∧
      ReflTransGen (LinksTo environment disk) ["notes", "a.scrip"]
        ["notes", "c.scrip"] ∧
      ¬ReflTransGen (LinksTo environment disk) ["notes", "a.scrip"]
        ["notes", "sub", "b.scrip"] := by
  intro environment disk path
  have alone : LeavesAlone environment.machine := fun _ _ _ => rfl
  have orderly : disk.IsOrderly := by decide +kernel
  have evaluated :
      let compiled := compileFile environment path { disk := disk }
      compiled.1.isOk = true ∧
        compiled.2.compiled = [["notes", "a.scrip"], ["notes", "c.scrip"]] := by
    decide +kernel
  obtain ⟨complete, sources⟩ := evaluated
  have checked : (called? path { disk := disk }).all
      (Compilation.checks environment 3) = true := by decide +kernel
  have sound : ∀ called, called? path { disk := disk } = some called →
      called.IsSound environment := by
    intro called calls
    rw [calls] at checked
    exact Compilation.isSound_of_checks checked
  obtain ⟨first, calls, compiled, _⟩ :=
    @compiled_iff_reachable environment alone disk orderly path sound complete
  have root : (called? path { disk := disk }).map Compilation.source =
      some ["notes", "a.scrip"] := by decide +kernel
  rw [calls, Option.map_some, Option.some_inj] at root
  rw [root] at compiled
  rw [sources] at compiled
  refine ⟨alone, orderly, sound, complete, (compiled _).mp (by decide), ?_⟩
  rw [← compiled]
  decide

/-- A page is lost when its file is also that of the page which links it, when it is a
device, or when code that runs takes it away, although nothing fails. -/
theorem linked_page_lost :
    let disk : List (Location × Entry) → Disk := fun entries =>
      { entries :=
          [(["notes"], .directory), (["notes", "a.scrip"], .file 0),
            (["notes", "b.scrip"], .file 1)] ++ entries
        nodes :=
          #[{ content := .ofText "#Link\x7bb.scrip\x7d\n```sh\n:\n```" },
            { content := .ofText "b" }, {}]
        workingDirectory := ["notes"] }
    let idle : Machine := fun disk _ _ => (.ok "", disk)
    let removes : Machine := fun disk _ _ =>
      (.ok "", disk.erase ["notes", "b.html"])
    let losses : List (Disk × Machine) :=
      [(disk [(["notes", "a.html"], .file 2), (["notes", "b.html"], .file 2)],
          idle),
        (disk [(["notes", "b.html"], .device)], idle), (disk [], removes)]
    ∀ loss ∈ losses,
      let environment : Environment := ⟨{ externalStylesheets := [] }, loss.2⟩
      let first : Compilation :=
        ⟨depthBound loss.1, ["notes", "a.scrip"], { disk := loss.1 }⟩
      let linked : Compilation := { first with source := ["notes", "b.scrip"] }
      let compiled := compileFile environment ⟨"a.scrip"⟩ { disk := loss.1 }
      loss.1.LinkFree ∧
        locateSource loss.1 ⟨"a.scrip"⟩ = .ok first.source ∧
        first.IsSound environment ∧ compiled.1.isOk = true ∧
        linked.source ∈ compiled.2.compiled ∧
        compiled.2.disk.readText (Location.path linked.source).page ≠
          .ok (Html.print (linked.html environment)) := by
  intro disk idle removes losses loss member
  have evaluated : ∀ loss ∈ losses,
      let environment : Environment := ⟨{ externalStylesheets := [] }, loss.2⟩
      let first : Compilation :=
        ⟨depthBound loss.1, ["notes", "a.scrip"], { disk := loss.1 }⟩
      let linked : Compilation := { first with source := ["notes", "b.scrip"] }
      let compiled := compileFile environment ⟨"a.scrip"⟩ { disk := loss.1 }
      loss.1.LinkFree ∧
        locateSource loss.1 ⟨"a.scrip"⟩ = .ok first.source ∧
        first.checks environment 2 = true ∧ compiled.1.isOk = true ∧
        linked.source ∈ compiled.2.compiled ∧
        compiled.2.disk.readText (Location.path linked.source).page ≠
          .ok (Html.print (linked.html environment)) := by
    decide +kernel
  obtain ⟨unlinked, located, checked, complete, begun, lost⟩ :=
    evaluated loss member
  exact ⟨unlinked, located, Compilation.isSound_of_checks checked, complete, begun,
    lost⟩

end Page
end NotePress
