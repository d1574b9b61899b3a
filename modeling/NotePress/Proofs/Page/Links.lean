import NotePress.Proofs.Disk.LinkFree
import NotePress.Proofs.Page.Compilation

/-!
# Where links lead

A link to a source document is looked up from the directory of the document it
stands in, and written with its target as it is into the page that is being made.
That page may lie in another directory, when the document was brought in by another
one. The link leads to the page of its document exactly when its target names that
document from the directory of the page too.
-/

namespace NotePress
namespace Page

open Path (Spells)

/-! ## Targets seen from two directories -/

/-- Paths that spell names are the same when the names are. -/
theorem samePath_iff
    {left right : Path}
    {names others : List (List Char)}
    (leftSpells : Spells left names)
    (rightSpells : Spells right others) :
    samePath left right = true ↔ names = others := by
  rw [samePath, leftSpells.components, rightSpells.components, beq_iff_eq,
    List.cons_inj_right]

/-- The target of a page, seen from a directory, names the page of a document
exactly when the target of the document names the same from there as from where
the document is. -/
theorem samePath_page_iff
    {directory base : Path}
    {outside inside : List (List Char)}
    (directorySpells : Spells directory outside)
    (baseSpells : Spells base inside)
    {target : String}
    (isSource : Target.isSource target = true)
    {document : Path}
    (documentSpells : Spells document
      ((Path.segmentsOf target.toList).foldl Path.step inside)) :
    samePath (directory.resolve (Target.page target)) document.page = true ↔
      samePath (directory.resolve target) (base.resolve target) = true := by
  obtain ⟨before, name, _, walks⟩ := Path.foldl_step_source isSource
  have fromDirectory := directorySpells.resolve target
  have fromBase := baseSpells.resolve target
  have pageFromDirectory := directorySpells.resolve (Target.page target)
  rw [(walks outside).1] at fromDirectory
  rw [(walks inside).1] at fromBase documentSpells
  rw [(walks outside).2] at pageFromDirectory
  rw [samePath_iff pageFromDirectory documentSpells.page,
    samePath_iff fromDirectory fromBase, List.append_cancel_right_eq,
    List.append_cancel_right_eq]

/-! ## What sessions of a run keep -/

/-- A machine that puts no links on a disk. -/
def KeepsPlain (machine : Machine) : Prop :=
  ∀ disk index call, disk.IsPlain → (machine disk index call).2.IsPlain

theorem plain_flush
    {disk : Disk}
    (plain : disk.IsPlain)
    (page : PageFile) :
    (page.flush disk).2.IsPlain := by
  rw [PageFile.flush]
  split
  · exact plain
  · exact plain.changeFile _ _

theorem plain_writeUnit
    {disk : Disk}
    (plain : disk.IsPlain)
    (page : PageFile)
    (bytes : ByteArray) :
    (page.writeUnit disk bytes).2.IsPlain := by
  rw [PageFile.writeUnit]
  split
  · exact plain
  · have flushed : (if page.pending.size + bytes.size ≤ PageFile.capacity then
        (page, disk)
      else
        page.flush disk).2.IsPlain := by
      split
      · exact plain
      · exact plain_flush plain page
    dsimp only
    split
    · exact flushed
    · exact flushed.changeFile _ _

theorem plain_writeUnits
    {session : Session}
    (plain : session.disk.IsPlain)
    (units : List String) :
    (session.writeUnits units).disk.IsPlain := by
  rw [Session.writeUnits]
  split
  · exact plain
  next page _ =>
    have written : ∀ state : PageFile × Disk, state.2.IsPlain →
        (units.foldl (fun state unit => state.1.writeUnit state.2 unit.toUTF8)
          state).2.IsPlain := by
      induction units with
      | nil => exact fun _ plain => plain
      | cons first others inductionHypothesis =>
          exact fun state plain =>
            inductionHypothesis _ (plain_writeUnit plain state.1 first.toUTF8)
    exact written (page, session.disk) plain

theorem compiled_writeUnits (session : Session) (units : List String) :
    (session.writeUnits units).compiled = session.compiled := by
  rw [Session.writeUnits]
  split <;> rfl

section Changes

variable
  {environment : Environment}
  {begins : Location → Prop}
  {before after : Session}

/-- Every change keeps a disk without links. -/
theorem Change.plain
    (keepsPlain : KeepsPlain environment.machine)
    (change : Change environment begins before after)
    (plain : before.disk.IsPlain) :
    after.disk.IsPlain := by
  cases change with
  | write units => exact plain_writeUnits plain units
  | run call => exact keepsPlain _ _ _ plain
  | begin allowed => exact plain
  | style directory =>
      rw [withStylesheet]
      split
      next disk writes => exact plain.writeStylesheet writes
      next => exact plain
  | create creates => exact plain.createFile creates
  | close page =>
      rw [Session.flush]
      split
      next => exact plain
      next file _ => exact plain_flush plain file

theorem Advances.plain
    (keepsPlain : KeepsPlain environment.machine)
    (advances : Advances environment begins before after)
    (plain : before.disk.IsPlain) :
    after.disk.IsPlain :=
  advances.keeps (fun _ _ change => change.plain keepsPlain) plain

/-- A change begins none but the documents that it may begin. -/
theorem Change.begun
    (change : Change environment begins before after)
    (begun : ∀ source ∈ before.compiled, begins source) :
    ∀ source ∈ after.compiled, begins source := by
  cases change with
  | write units =>
      rw [compiled_writeUnits]
      exact begun
  | begin allowed =>
      intro source member
      rw [Session.begin] at member
      dsimp only at member
      split at member
      · exact begun source member
      · rcases List.mem_append.mp member with old | new
        · exact begun source old
        · rw [List.mem_singleton.mp new]
          exact allowed
  | style directory =>
      rw [withStylesheet]
      split <;> exact begun
  | close page =>
      rw [Session.flush]
      split <;> exact begun
  | _ => exact begun

theorem Advances.begun
    (advances : Advances environment begins before after)
    (begun : ∀ source ∈ before.compiled, begins source) :
    ∀ source ∈ after.compiled, begins source :=
  advances.keeps (fun _ _ change => change.begun) begun

end Changes

/-! ## Where the documents of a run are -/

/-- A context whose directory is that of a location. -/
def Context.IsPlaced (context : Context) : Prop :=
  ∃ location : Location, location.IsProper ∧
    context.base = Location.path location

theorem locate_of_locateSource
    {disk : Disk}
    {path : Path}
    {source : Location}
    (located : locateSource disk path = .ok source) :
    disk.locate path = .ok source := by
  rw [locateSource, Source.locate] at located
  split at located
  next location found =>
    cases located
    split at found
    next =>
      split at found
      next location reached =>
        cases found
        exact reached
      next => cases found
    next => cases found
  next => cases located
  next => cases located

theorem isProper_of_locateSource
    {disk : Disk}
    (plain : disk.IsPlain)
    {path : Path}
    {source : Location}
    (located : locateSource disk path = .ok source) :
    source.IsProper :=
  plain.isProper_of_locate (locate_of_locateSource located)

/-- A transcluded document is placed when the one around it is. -/
theorem isPlaced_of_transcluded
    {environment : Environment}
    {context inner : Context}
    {hashtag : Document.Hashtag}
    {session : Session}
    {document : Document}
    (plain : session.disk.IsPlain)
    (placed : context.IsPlaced)
    (brings : transcluded? environment context hashtag session =
      some (inner, document)) :
    inner.IsPlaced := by
  unfold transcluded? at brings
  split at brings
  next target _ =>
    split at brings
    next => cases brings
    next source located =>
      split at brings
      next => cases brings
      next =>
        split at brings
        next => cases brings
        next =>
          cases brings
          exact ⟨source.dropLast,
            (isProper_of_locateSource plain located).dropLast, rfl⟩
  next =>
    split at brings
    next => cases brings
    next =>
      cases brings
      exact placed
  next => cases brings

section Runs

variable
  {environment : Environment}
  (keepsPlain : KeepsPlain environment.machine)
  {first page : Compilation}
  (plain : first.session.disk.IsPlain)
  (opened : Opened environment first page)
  {visit : Visit}

include opened

/-- What lies before a visit in a run, from the start of the run on. -/
theorem Opened.advances_visit
    (reached : Reached environment (page.visits environment) visit) :
    Advances environment (Begun environment first) first.session visit.session :=
  ((opened.partOf_visit reached).trans opened.partOf).before

include keepsPlain plain

/-- The disks that visits in a run find have no links. -/
theorem Opened.isPlain
    (reached : Reached environment (page.visits environment) visit) :
    visit.session.disk.IsPlain :=
  (opened.advances_visit reached).plain keepsPlain plain

theorem Opened.isProper
    (proper : first.source.IsProper) :
    page.source.IsProper := by
  cases opened with
  | start => exact proper
  | link opened reached starts =>
      obtain ⟨path, located⟩ := located_of_starts starts
      exact isProper_of_locateSource (opened.isPlain keepsPlain plain reached) located

/-- The documents that visits in a run are in are placed. -/
theorem Opened.isPlaced
    (proper : first.source.IsProper)
    (reached : Reached environment (page.visits environment) visit) :
    visit.context.IsPlaced := by
  induction reached with
  | start member =>
      rw [(Compilation.mem_visits member).2]
      exact ⟨page.source.dropLast,
        (opened.isProper keepsPlain plain proper).dropLast, rfl⟩
  | @inside outer inner reached member inductionHypothesis =>
      rcases (Visit.mem_inside member).context with
        same | ⟨hashtag, document, brings⟩
      · rw [same]
        exact inductionHypothesis
      · exact isPlaced_of_transcluded (opened.isPlain keepsPlain plain reached)
          inductionHypothesis brings

end Runs

/-! ## Links in a page -/

theorem block_of_directive
    {visit : Visit}
    {directive : Directive}
    (takesUp : visit.directive? = some directive) :
    ∃ hashtag, visit.block = .hashtag hashtag ∧
      Directive.ofHashtag? hashtag = some directive := by
  unfold Visit.directive? at takesUp
  split at takesUp
  next hashtag block => exact ⟨hashtag, block, takesUp⟩
  next => cases takesUp

theorem directive_of_block
    {visit : Visit}
    {hashtag : Document.Hashtag}
    (block : visit.block = .hashtag hashtag) :
    visit.directive? = Directive.ofHashtag? hashtag := by
  rw [Visit.directive?, block]

/-- A link that is written has found its document, which was begun before or is
compiled at the link. -/
theorem outcome_of_link
    {environment : Environment}
    {visit : Visit}
    {target title : String}
    (link : visit.directive? = some (.link target title))
    (isSource : Target.isSource target = true)
    (complete : (visit.outcome environment).failure = none) :
    (visit.outcome environment).html = linkPieces (Target.page target) title ∧
    ∃ source,
      locateSource visit.session.disk (visit.context.base.resolve target) =
        .ok source ∧
      (source ∈ visit.session.compiled ∨
        ∃ next, visit.starts? = some next ∧ next.source = source) := by
  obtain ⟨hashtag, blockEqual, directive⟩ := block_of_directive link
  obtain ⟨⟨depth, context, around, session⟩, block⟩ := visit
  dsimp only at blockEqual ⊢
  rw [blockEqual] at complete ⊢
  rw [Visit.outcome, renderBlock] at complete ⊢
  cases depth with
  | zero =>
      rw [Site.hashtags, renderHashtag] at complete
      cases complete
  | succ depth =>
      have starts : (Visit.mk ⟨depth + 1, context, around, session⟩
          (.hashtag hashtag)).starts? =
          linked? depth context hashtag session := rfl
      rw [starts]
      unfold linked?
      rw [Site.hashtags, renderHashtag, directive] at complete ⊢
      dsimp only at complete ⊢
      rw [if_pos isSource] at complete
      rw [if_pos isSource, if_pos isSource]
      cases located : locateSource session.disk
          (context.base.resolve target) with
      | error error =>
          rw [located] at complete
          cases complete
      | ok source =>
          rw [located] at complete
          dsimp only at complete ⊢
          by_cases compiled : session.compiled.contains source = true
          · rw [if_pos compiled]
            exact ⟨rfl, source, rfl,
              .inl (List.contains_iff_mem.mp compiled)⟩
          · rw [if_neg compiled] at complete
            rw [if_neg compiled, if_neg compiled]
            generalize compileAt environment _ source session = result
              at complete ⊢
            obtain ⟨answer, after⟩ := result
            cases answer with
            | error error => cases complete
            | ok path => exact ⟨rfl, source, rfl, .inr ⟨_, rfl, rfl⟩⟩

/-- What comes of a link in a page of a run: its document is that of another
compilation of the run, and the anchor, seen from the directory of the page, leads
to the page that this compilation answers exactly when the target names the same
from there as from the document that it stands in. -/
structure Linked
    (environment : Environment)
    (first page : Compilation)
    (visit : Visit)
    (target title : String)
    (linked : Compilation) : Prop where
  opened : Opened environment first linked
  located :
    locateSource visit.session.disk (visit.context.base.resolve target) =
      .ok linked.source
  answer : (linked.result environment).1 =
    .ok (Location.path linked.source).page
  html : (visit.outcome environment).html =
    linkPieces (Target.page target) title
  leads :
    samePath ((directoryOf page.source).resolve (Target.page target))
        (Location.path linked.source).page = true ↔
      samePath ((directoryOf page.source).resolve target)
        (visit.context.base.resolve target) = true

theorem Opened.linked
    {environment : Environment}
    {first page : Compilation}
    {visit : Visit}
    {target title : String}
    (keepsPlain : KeepsPlain environment.machine)
    (plain : first.session.disk.IsPlain)
    (start : ∀ source ∈ first.session.compiled, Begun environment first source)
    (proper : first.source.IsProper)
    (complete : (first.stretch environment).failure = none)
    (opened : Opened environment first page)
    (reached : Reached environment (page.visits environment) visit)
    (link : visit.directive? = some (.link target title))
    (isSource : Target.isSource target = true) :
    ∃ linked, Linked environment first page visit target title linked := by
  have plainThere := opened.isPlain keepsPlain plain reached
  have written := ((opened.partOf_visit reached).trans opened.partOf).complete
    complete
  obtain ⟨html, source, located, made⟩ := outcome_of_link link isSource written
  have begun : Begun environment first source := by
    rcases made with before | ⟨next, starts, same⟩
    · exact (opened.advances_visit reached).begun start source before
    · exact ⟨next, .link opened reached starts, same⟩
  obtain ⟨linked, linkedOpened, rfl⟩ := begun
  refine ⟨linked, linkedOpened, located,
    Compilation.answer_of_complete (linkedOpened.partOf.complete complete),
    html, ?_⟩
  obtain ⟨base, baseProper, baseEqual⟩ :=
    opened.isPlaced keepsPlain plain proper reached
  have baseSpells : Spells visit.context.base (base.map String.toList) := by
    rw [baseEqual]
    exact baseProper.spells
  have directorySpells :=
    (opened.isProper keepsPlain plain proper).dropLast.spells
  refine samePath_page_iff directorySpells baseSpells isSource ?_
  have names := plainThere.linkFree.locate_spells (baseSpells.resolve target)
    (locate_of_locateSource located)
  rw [← names]
  exact (isProper_of_locateSource plainThere located).spells

/-- The links in the pages of a run lead to pages of the run. Each anchor in a page
is that of a link which a visit takes up, and each link to a source document leads to
the page of that document exactly when its target names the document from the
directory of the page too. -/
structure LinksHold
    (environment : Environment)
    (first page : Compilation) : Prop where
  anchors : ∀ attributes,
    .opening .anchor attributes ∈ page.html environment →
      ∃ visit, Reached environment (page.visits environment) visit ∧
        visit.Links attributes
  linked : ∀ visit, Reached environment (page.visits environment) visit →
    ∀ target title, visit.directive? = some (.link target title) →
      Target.isSource target = true →
      ∃ linked, Linked environment first page visit target title linked

/-- On a disk without links, when the page of a document is made, the links hold in
that page and in all that are made with it. -/
theorem link_integrity_iff
    {environment : Environment}
    (keepsPlain : KeepsPlain environment.machine)
    {disk : Disk}
    (plain : disk.IsPlain)
    {path output : Path}
    {after : Session}
    (compiles : compileFile environment path { disk := disk } =
      (.ok output, after)) :
    ∃ source, locateSource disk path = .ok source ∧
      let first : Compilation := ⟨depthBound disk, source, { disk := disk }⟩
      first.result environment = (.ok output, after) ∧
      ∀ page, Opened environment first page →
        LinksHold environment first page := by
  rw [compileFile] at compiles
  split at compiles
  next => cases compiles
  next source located =>
    refine ⟨source, located, compiles, ?_⟩
    intro page opened
    refine ⟨fun _ member => opened.links member, ?_⟩
    intro visit reached target title link isSource
    refine opened.linked keepsPlain plain (List.forall_mem_nil _)
      (isProper_of_locateSource plain located) ?_ reached link isSource
    rw [Compilation.stretch, Compilation.result]
    dsimp only at compiles ⊢
    rw [compiles]

/-- A document in a directory below is brought in, and links to its neighbour. The
link in the page does not lead to the page of that neighbour. -/
theorem link_integrity_iff_nested :
    let environment : Environment := ⟨{}, fun disk _ _ => (.ok "", disk)⟩
    let disk : Disk :=
      { entries :=
          [(["notes"], .directory), (["notes", "a.scrip"], .file 0),
            (["notes", "sub"], .directory),
            (["notes", "sub", "b.scrip"], .file 1),
            (["notes", "sub", "c.scrip"], .file 2)]
        nodes :=
          #[{ content := .ofText "#Nested\x7bsub/b.scrip\x7d" },
            { content := .ofText "#Link\x7bc.scrip\x7d" },
            { content := .ofText "c" }]
        workingDirectory := ["notes"] }
    KeepsPlain environment.machine ∧ disk.IsPlain ∧
      (compileFile environment ⟨"a.scrip"⟩ { disk := disk }).1.isOk = true ∧
      .opening .anchor [.given "href" "c.html"] ∈ Compilation.html environment
        ⟨depthBound disk, ["notes", "a.scrip"], { disk := disk }⟩ ∧
      samePath (Path.resolve ⟨"/notes"⟩ "c.html")
        (Location.path ["notes", "sub", "c.scrip"]).page = false ∧
      ∃ source, locateSource disk ⟨"a.scrip"⟩ = .ok source ∧
        let first : Compilation := ⟨depthBound disk, source, { disk := disk }⟩
        ∀ page, Opened environment first page →
          LinksHold environment first page := by
  intro environment disk
  have keepsPlain : KeepsPlain environment.machine :=
    fun _ _ _ plain => plain
  have plain : disk.IsPlain := by
    refine ⟨by simp [disk, Disk.LinkFree], ?_⟩
    exact List.forall_mem_singleton.mpr ⟨by decide, by decide, by decide⟩
  have answered :
      (compileFile environment ⟨"a.scrip"⟩ { disk := disk }).1.isOk = true := by
    decide +kernel
  refine ⟨keepsPlain, plain, answered, by decide +kernel, by decide, ?_⟩
  cases compiles : compileFile environment ⟨"a.scrip"⟩ { disk := disk } with
  | mk answer after =>
      rw [compiles] at answered
      cases answer with
      | error error => cases answered
      | ok output =>
          obtain ⟨source, located, _, links⟩ :=
            link_integrity_iff keepsPlain plain compiles
          exact ⟨source, located, links⟩

end Page
end NotePress
