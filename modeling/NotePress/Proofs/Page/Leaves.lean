import NotePress.Proofs.Page.Compilation
import NotePress.Proofs.Page.Contents

/-!
# What comes of a visit

A visit that takes up a container continues inside it. Any other visit writes pieces,
runs code, starts the compilation of a document, or fails. The hashtags inside a
container are those of the block itself, or those of a document that it brings in.
-/

namespace NotePress
namespace Page

open Html (Piece)
open Document (Block)

/-! ## Links -/

/-- What starts a compilation: a link to a source document that was not begun
before. -/
structure Visit.StartsBy
    (visit : Visit)
    (target title : String)
    (next : Compilation) : Prop where
  link : visit.directive? = some (.link target title)
  isSource : Target.isSource target = true
  located :
    locateSource visit.session.disk (visit.context.base.resolve target) =
      .ok next.source
  fresh : next.source ∉ visit.session.compiled
  session : next.session = visit.session
  depth : visit.depth = next.depth + 1

/-- A compilation is started by a link. -/
theorem startsBy_of_starts
    {visit : Visit}
    {next : Compilation}
    (starts : visit.starts? = some next) :
    ∃ target title, visit.StartsBy target title next := by
  obtain ⟨⟨depth, context, around, session⟩, block⟩ := visit
  unfold Visit.starts? at starts
  split at starts
  next hashtag below blockEqual depthEqual =>
    cases blockEqual
    cases depthEqual
    obtain ⟨target, title, source, directive, isSource, located, fresh, rfl⟩ :=
      link_of_linked starts
    exact ⟨target, title, directive, isSource, located, fresh, rfl, rfl⟩
  next => cases starts

/-- A compilation goes on from the session of the link that starts it. -/
theorem session_of_starts
    {visit : Visit}
    {next : Compilation}
    (starts : visit.starts? = some next) :
    next.session = visit.session := by
  obtain ⟨target, title, start⟩ := startsBy_of_starts starts
  exact start.session

/-! ## Visits that take up no container -/

/-- What a link writes after the compilation of its document, which may have
failed. -/
def linkOutcome
    (pieces : List Piece) :
    Except RenderError Path × Session → Outcome
  | (.error error, after) => .fail error after
  | (.ok _, after) => .emit pieces after

/-- What a visit raises an error for, unless it brings in a document or starts a
compilation. -/
inductive Visit.Raises (visit : Visit) : RenderError → Prop
  | tooDeep (shallow : visit.depth = 0) : Raises visit .tooDeep
  | heading (level : Nat) : Raises visit (.invalidHeadingLevel level)
  | refused
      {hashtag : Document.Hashtag}
      {error : RenderError}
      (block : visit.block = .hashtag hashtag)
      (refuses : Refuses visit.context hashtag visit.session error) :
      Raises visit error

/-- Only a visit of no depth is too deep. -/
theorem Visit.Raises.shallow
    {visit : Visit}
    (raises : visit.Raises .tooDeep) :
    visit.depth = 0 := by
  cases raises with
  | tooDeep shallow => exact shallow
  | refused _ refuses =>
      cases refuses with
      | file isOfFile => exact isOfFile.elim

/-- What may come of a visit that takes up no container, given the compilation that
it starts. -/
inductive Visit.Leaf
    (environment : Environment)
    (visit : Visit) : Option Compilation → Outcome → Prop
  | fails
      (error : RenderError)
      (raises : visit.Raises error) :
      Leaf environment visit none (.fail error visit.session)
  | writes
      (pieces : List Piece) :
      Leaf environment visit none (.emit pieces visit.session)
  | writesTwice
      (pieces later : List Piece) :
      Leaf environment visit none
        ((Outcome.emit pieces visit.session).andThen (.emit later))
  | runs
      (call : CodeCall)
      (pieces : List Piece) :
      Leaf environment visit none
        (.emit pieces (runCode environment call visit.session).2)
  | links
      (next : Compilation)
      (pieces : List Piece) :
      Leaf environment visit (some next)
        (linkOutcome pieces (next.result environment))

section Leaves

variable {environment : Environment}

/-- A code block writes a listing or fails with the error of its program. -/
theorem leaf_renderCode
    (visit : Visit)
    (block : Document.CodeBlock) :
    visit.Leaf environment none
      (renderCode environment block visit.session) := by
  rw [renderCode]
  split
  · exact .writes _
  · have run : ∀ pieces, visit.Leaf environment none
        (.emit pieces
          (runCode environment ⟨block.command, block.code⟩ visit.session).2) :=
      .runs ⟨block.command, block.code⟩
    split
    next ran =>
      rw [ran] at run
      split
      · exact run _
      · exact run _
    next ran =>
      rw [ran] at run
      exact run _

/-- A hashtag that brings in no document writes, links or fails. -/
theorem leaf_hashtag
    {site : Site}
    {hashtag : Document.Hashtag}
    (alone : site.depth = 0 ∨
      transcluded? environment site.context hashtag site.session = none) :
    (Visit.mk site (.hashtag hashtag)).Leaf environment
      (Visit.mk site (.hashtag hashtag)).starts?
      (renderHashtag environment site.depth site.context hashtag
        site.session) := by
  obtain ⟨depth, context, around, session⟩ := site
  cases depth with
  | zero =>
      rw [renderHashtag]
      exact .fails _ (.tooDeep rfl)
  | succ depth =>
      replace alone := alone.resolve_left (Nat.succ_ne_zero depth)
      have unfolded : (Visit.mk ⟨depth + 1, context, around, session⟩
          (.hashtag hashtag)).starts? =
          linked? depth context hashtag session := rfl
      rw [unfolded]
      cases starts : linked? depth context hashtag session with
      | none =>
          rcases renderHashtag_of_alone alone starts with
            ⟨error, refuses, fails⟩ | ⟨directive, _, writes⟩
          · rw [fails]
            exact .fails _ (.refused rfl refuses)
          · rw [writes]
            exact .writes _
      | some next =>
          obtain ⟨target, title, _, _, _, writes⟩ := renderHashtag_of_linked starts
          rw [writes]
          exact .links next _

/-- What comes of a visit that takes up no container is one of these. -/
theorem Visit.leaf
    {visit : Visit}
    (leaf : ¬visit.Contains environment) :
    visit.Leaf environment visit.starts? (visit.outcome environment) := by
  obtain ⟨site, block⟩ := visit
  rw [Visit.outcome_mk]
  cases block with
  | heading level children =>
      have invalid : ¬(1 ≤ level ∧ level ≤ 6) := leaf
      rw [renderBlock, if_neg invalid]
      exact .fails _ (.heading level)
  | hashtag hashtag =>
      rw [renderBlock]
      exact leaf_hashtag (Classical.not_not.mp leaf)
  | codeBlock code =>
      rw [renderBlock]
      exact leaf_renderCode ⟨site, .codeBlock code⟩ code
  | quotation quotation =>
      rw [renderBlock, renderQuotation]
      split
      · exact .writes _
      · exact .writesTwice _ _
  | text _ | literal _ | textbox | mention _ | checkbox _ =>
      rw [renderBlock]
      exact .writes _
  | _ => exact (leaf trivial).elim

/-- A container starts no compilation itself. -/
theorem starts_of_contains
    {visit : Visit}
    (contains : visit.Contains environment) :
    visit.starts? = none := by
  obtain ⟨⟨depth, context, around, session⟩, block⟩ := visit
  cases block with
  | hashtag hashtag =>
      cases depth with
      | zero => rfl
      | succ depth =>
          cases starts : linked? depth context hashtag session with
          | none => exact starts
          | some next =>
              obtain ⟨target, title, _, directive, _⟩ := link_of_linked starts
              refine absurd (.inr ?_) contains
              rw [transcluded?, directive]
  | _ => rfl

end Leaves

/-! ## Hashtags in a document -/

/-- The hashtags in blocks are those of each block. -/
theorem hashtagsInBlocks_eq (blocks : List Block) :
    hashtagsInBlocks blocks = blocks.flatMap hashtagsInBlock := by
  induction blocks with
  | nil => rw [hashtagsInBlocks, List.flatMap_nil]
  | cons first others inductionHypothesis =>
      rw [hashtagsInBlocks, List.flatMap_cons, inductionHypothesis]

theorem hashtagsInGroups_eq (groups : List (List Block)) :
    hashtagsInGroups groups = groups.flatMap hashtagsInBlocks := by
  induction groups with
  | nil => rw [hashtagsInGroups, List.flatMap_nil]
  | cons first others inductionHypothesis =>
      rw [hashtagsInGroups, List.flatMap_cons, inductionHypothesis]

theorem hashtagsInRows_eq (rows : List (List (List Block))) :
    hashtagsInRows rows = rows.flatMap hashtagsInGroups := by
  induction rows with
  | nil => rw [hashtagsInRows, List.flatMap_nil]
  | cons first others inductionHypothesis =>
      rw [hashtagsInRows, List.flatMap_cons, inductionHypothesis]

theorem mem_hashtagsInBlocks
    {block : Block}
    {blocks : List Block}
    (member : block ∈ blocks)
    {hashtag : Document.Hashtag}
    (inside : hashtag ∈ hashtagsInBlock block) :
    hashtag ∈ hashtagsInBlocks blocks := by
  rw [hashtagsInBlocks_eq]
  exact List.mem_flatMap_of_mem member inside

theorem mem_hashtagsInGroups
    {group : List Block}
    {groups : List (List Block)}
    (member : group ∈ groups)
    {hashtag : Document.Hashtag}
    (inside : hashtag ∈ hashtagsInBlocks group) :
    hashtag ∈ hashtagsInGroups groups := by
  rw [hashtagsInGroups_eq]
  exact List.mem_flatMap_of_mem member inside

/-- The document around an inner visit is that of the outer one, or one that the
outer one brings in. -/
theorem Visit.document_cases
    {environment : Environment}
    {outer inner : Visit}
    (member : inner ∈ outer.inside environment) :
    (inner.depth = outer.depth ∧ inner.context = outer.context ∧
      ∀ hashtag ∈ hashtagsInBlock inner.block,
        hashtag ∈ hashtagsInBlock outer.block) ∨
    ∃ hashtag document,
      outer.block = .hashtag hashtag ∧ outer.depth = inner.depth + 1 ∧
        transcluded? environment outer.context hashtag outer.session =
          some (inner.context, document) ∧
        ∀ hashtag ∈ hashtagsInBlock inner.block,
          hashtag ∈ hashtagsInGroups document := by
  obtain ⟨site, block⟩ := outer
  have entered : ∀ pieces children,
      inner ∈ (site.enter pieces).blocks environment children →
      inner.depth = site.depth ∧ inner.context = site.context ∧
        ∀ hashtag ∈ hashtagsInBlock inner.block,
          hashtag ∈ hashtagsInBlocks children := by
    intro pieces children member
    obtain ⟨child, childMember, session, rfl⟩ := Site.mem_blocks member
    exact ⟨rfl, rfl, fun _ => mem_hashtagsInBlocks childMember⟩
  cases block with
  | heading level children =>
      by_cases valid : 1 ≤ level ∧ level ≤ 6
      · rw [inside_heading valid] at member
        exact .inl (entered _ children member)
      · rw [inside_invalidHeading valid] at member
        cases member
  | styled style children => exact .inl (entered _ children member)
  | orderedItem ordinal children => exact .inl (entered _ children member)
  | unorderedItem children => exact .inl (entered _ children member)
  | table rows =>
      obtain ⟨row, rowMember, cell, cellMember, child, childMember, session,
        rfl⟩ := Site.mem_rows member
      refine .inl ⟨rfl, rfl, fun hashtag found => ?_⟩
      rw [hashtagsInBlock, hashtagsInRows_eq]
      exact List.mem_flatMap_of_mem rowMember (mem_hashtagsInGroups cellMember
        (mem_hashtagsInBlocks childMember found))
  | hashtag hashtag =>
      by_cases alone : site.depth = 0 ∨
          transcluded? environment site.context hashtag site.session = none
      · rw [inside_alone alone] at member
        cases member
      · rw [not_or, ← Ne, ← Ne, Option.ne_none_iff_exists'] at alone
        obtain ⟨notShallow, ⟨context, document⟩, brings⟩ := alone
        obtain ⟨depth, deep⟩ := Nat.exists_eq_succ_of_ne_zero notShallow
        rw [inside_transcluded deep brings] at member
        obtain ⟨paragraph, paragraphMember, block, blockMember, session, rfl⟩ :=
          Site.mem_paragraphs member
        exact .inr ⟨hashtag, document, rfl, deep, brings, fun _ inBlock =>
          mem_hashtagsInGroups paragraphMember
            (mem_hashtagsInBlocks blockMember inBlock)⟩
  | _ => cases member

/-! ## Transcluded documents -/

/-- How a hashtag brings in a document, in the context that the document is rendered
in. -/
inductive Brings
    (environment : Environment)
    (context : Context)
    (hashtag : Document.Hashtag)
    (session : Session) : Context → Document → Prop
  | nested
      {target : String}
      {source : Location}
      {document : Document}
      (directive : Directive.ofHashtag? hashtag = some (.nested target))
      (located :
        locateSource session.disk (context.base.resolve target) = .ok source)
      (fresh :
        context.visited.any (samePath (Location.path source)) = false)
      (reads : loadSource session.disk source = .ok document) :
      Brings environment context hashtag session
        ⟨directoryOf source, context.visited ++ [Location.path source]⟩ document
  | autoNested
      {folders : List String}
      (directive : Directive.ofHashtag? hashtag = some .autoNested)
      (lists : Source.indexedFolders session.disk context.base
        environment.options.indexFileName = .ok folders) :
      Brings environment context hashtag session context
        (Source.indexDocument folders environment.options.indexFileName)

/-- What is brought in is what the directive names. -/
theorem transcluded_iff
    {environment : Environment}
    {context inner : Context}
    {hashtag : Document.Hashtag}
    {session : Session}
    {document : Document} :
    transcluded? environment context hashtag session = some (inner, document) ↔
      Brings environment context hashtag session inner document := by
  constructor
  · intro brings
    unfold transcluded? at brings
    split at brings
    next target directive =>
      split at brings
      next => cases brings
      next source located =>
        split at brings
        next => cases brings
        next fresh =>
          split at brings
          next => cases brings
          next reads =>
            cases brings
            exact .nested directive located (Bool.eq_false_iff.mpr fresh) reads
    next directive =>
      split at brings
      next => cases brings
      next folders lists =>
        cases brings
        exact .autoNested directive lists
    next => cases brings
  · rintro (⟨directive, located, fresh, reads⟩ | ⟨directive, lists⟩)
    · rw [transcluded?, directive]
      dsimp only
      rw [located]
      dsimp only
      rw [if_neg (Bool.eq_false_iff.mp fresh), reads]
    · rw [transcluded?, directive]
      dsimp only
      rw [lists]

/-! ## Compilations -/

namespace Compilation

variable
  (environment : Environment)
  (compilation : Compilation)

/-- The session in which the document of a compilation counts as compiled. -/
def begun : Session :=
  compilation.session.begin compilation.source

/-- The session in which the stylesheet is beside the page. -/
def styled : Session :=
  withStylesheet environment (directoryOf compilation.source) compilation.begun

variable {environment compilation}

theorem subset_begun : compilation.session.compiled ⊆ compilation.begun.compiled := by
  rw [begun, Session.begin]
  dsimp only
  split
  · exact List.Subset.refl _
  · exact List.subset_append_left _ _

/-- The document of a compilation counts as compiled from its beginning. -/
theorem mem_begun : compilation.source ∈ compilation.begun.compiled := by
  rw [begun, Session.begin]
  dsimp only
  split
  next already => exact List.contains_iff_mem.mp already
  next => exact List.mem_append_right _ List.mem_cons_self

theorem compiled_styled :
    (compilation.styled environment).compiled = compilation.begun.compiled := by
  rw [styled, withStylesheet]
  split <;> rfl

/-- What it takes to open the file of a page. -/
theorem of_opened
    {opened : Session}
    {document : Document}
    (opens : compilation.opened? environment = some (opened, document)) :
    loadSource compilation.session.disk compilation.source = .ok document ∧
    ∃ file disk,
      (compilation.styled environment).disk.createFile
          (Location.path compilation.source).page = .ok (file, disk) ∧
        opened = { compilation.styled environment with
          disk := disk
          page := some ⟨file, 0, .empty⟩ } := by
  unfold opened? at opens
  dsimp only at opens
  split at opens
  next => cases opens
  next loaded read =>
    split at opens
    next => cases opens
    next file disk creates =>
      cases opens
      exact ⟨read, file, disk, creates, rfl⟩

/-- A compilation that does not open the file of its page has counted its document
as compiled, and may have put the stylesheet beside it. Depth does not matter. -/
theorem result_of_unopened
    (unopened : compilation.opened? environment = none) :
    ∃ error after, error.IsOfFile ∧
      (after = compilation.begun ∨ after = compilation.styled environment) ∧
      ∀ depth, result environment { compilation with depth := depth } =
        (.error error, after) := by
  have refused : ∀ depth, { compilation with depth := depth }.result environment =
      compileAt environment (renderHashtag environment depth)
        compilation.source compilation.session := fun _ => rfl
  unfold opened? Session.begin at unopened
  dsimp only at unopened
  split at unopened
  next error fails =>
    refine ⟨error, compilation.begun, isOfFile_of_loadSource fails, .inl rfl,
      fun depth => ?_⟩
    rw [refused, compileAt]
    dsimp only
    rw [fails]
    rfl
  next document reads =>
    split at unopened
    next failure fails =>
      refine ⟨.file (.failed failure), compilation.styled environment, trivial,
        .inr rfl, fun depth => ?_⟩
      rw [refused, compileAt]
      dsimp only
      rw [reads]
      dsimp only
      rw [fails]
      rfl
    next => cases unopened

/-- A compilation that completes has opened the file of its page. -/
theorem exists_opened
    (complete : (compilation.result environment).1.isOk = true) :
    ∃ opened document,
      compilation.opened? environment = some (opened, document) := by
  cases opens : compilation.opened? environment with
  | none =>
      obtain ⟨error, after, _, _, results⟩ := result_of_unopened opens
      have fails : compilation.result environment = (.error error, after) :=
        results compilation.depth
      rw [fails] at complete
      cases complete
  | some found => exact ⟨found.1, found.2, rfl⟩

/-- A compilation that opens the file of its page writes the envelope of its
document into it. -/
theorem result_of_opened
    {opened : Session}
    {document : Document}
    (opens : compilation.opened? environment = some (opened, document)) :
    compilation.result environment =
      let outcome := renderEnvelope environment
        (renderHashtag environment compilation.depth compilation.context)
        document opened
      (match outcome.failure with
        | some error => .error error
        | none => .ok (Location.path compilation.source).page,
        { outcome.session.flush with page := compilation.session.page }) := by
  rcases opened_cases with ⟨unopened, _⟩ | ⟨found, read, opens', _, answers⟩
  · rw [unopened] at opens
    cases opens
  · rw [opens] at opens'
    cases opens'
    exact answers

end Compilation

end Page
end NotePress
