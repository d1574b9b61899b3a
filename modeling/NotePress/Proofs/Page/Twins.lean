import NotePress.Proofs.Disk.Twins
import NotePress.Proofs.Page.Calls
import NotePress.Proofs.Page.Reachability

/-!
# Twin sessions

Two runs may have different answers to their code. Their sessions are twins: the disks
differ at most in the files of outputs that may show what code printed, and what was
compiled and which code ran is the same. Documents, folders and places are found alike,
and a page is opened in both sessions or refused with the same error.
-/

namespace NotePress
namespace Page

open Html (Piece)
open Disk (Twin)

/-- The outputs that may show what code printed: pages, and stylesheets if a page is
copied to them. -/
def MayShowCode (options : Options) (disk : Disk) (location : Location) : Prop :=
  location.IsOutput ∧
    (location.extension? = some Target.pageExtension.toList ∨
      ∃ path page, options.stylesheet = some path ∧
        disk.locate path = .ok page ∧
        page.extension? = some Target.pageExtension.toList)

/-- Sessions that differ at most in hidden files and in what of a page is held back. -/
structure Session.Twins
    (hidden : Location → Prop)
    (left right : Session) : Prop where
  disk : Twin hidden left.disk right.disk
  compiled : left.compiled = right.compiled
  calls : left.calls = right.calls
  page : left.page.map PageFile.file = right.page.map PageFile.file

/-- A session on an orderly disk in which the file of the open page, if there is one,
is that of a hidden output. -/
structure Session.Hides (hidden : Location → Prop) (session : Session) : Prop where
  orderly : session.disk.IsOrderly
  stored : ∀ page index, session.page = some page → page.file = some index →
    ∃ location : Location, location.IsOutput ∧ hidden location ∧
      session.disk.entryAt? location = some (.file index)

section Hidden

variable
  {options : Options}
  {disk : Disk}
  {location : Location}

theorem not_mayShowCode
    (isDocument : location.IsDocument) :
    ¬MayShowCode options disk location :=
  fun shows => isDocument.not_isOutput shows.1

theorem mayShowCode_page
    (isDocument : location.IsDocument) :
    MayShowCode options disk location.page :=
  ⟨isDocument.isOutput_page, .inl isDocument.extension_page⟩

/-- A stylesheet may show what the file shows that it is copied from. -/
theorem mayShowCode_stylesheet
    {later : Disk}
    (alike : Disk.Alike disk later)
    {path : Path}
    {place : Location}
    (configured : options.stylesheet = some path)
    (located : later.locate path = .ok place)
    (shows : MayShowCode options disk place)
    (directory : Location) :
    MayShowCode options disk (directory ++ [Stylesheet.fileName]) := by
  refine ⟨.inr List.getLast?_concat, .inr ?_⟩
  rcases shows.2 with isPage | already
  · exact ⟨path, place, configured, alike.symm.locate located, isPage⟩
  · exact already

theorem Session.Shows.hides
    {session : Session}
    (shows : session.Shows disk) :
    session.Hides (MayShowCode options disk) := by
  obtain ⟨⟨owner, tidy⟩, grows⟩ := shows
  refine ⟨grows.orderly, fun page index opened file => ?_⟩
  cases owner with
  | none =>
      rw [tidy.idle rfl] at opened
      cases opened
  | some source =>
      have writes := tidy.writes source rfl
      obtain ⟨other, stored, isOpen, found, holds⟩ := writes.stored
      obtain rfl := Option.some.inj (isOpen.symm.trans opened)
      obtain rfl := Option.some.inj (holds.file.symm.trans file)
      exact ⟨source.page, writes.isDocument.isOutput_page,
        mayShowCode_page writes.isDocument, found⟩

end Hidden

namespace Session

variable {hidden : Location → Prop}

section Hides

variable
  {session : Session}
  (hides : session.Hides hidden)

include hides

/-- What is written into the open page changes a hidden file only. -/
theorem Hides.twin_writeAt
    {page : PageFile}
    (opened : session.page = some page)
    {disk : Disk}
    (twin : Twin hidden session.disk disk)
    (offset : Nat)
    (bytes : ByteArray) :
    Twin hidden session.disk (disk.writeAt page.file offset bytes) := by
  cases file : page.file with
  | none => exact twin
  | some index =>
      obtain ⟨location, isOutput, hidesIt, found⟩ := hides.stored page index opened file
      exact twin.trans (Twin.of_changeFile (twin.orderly hides.orderly) isOutput hidesIt
        ((twin.entryAt _).symm.trans found) _)

theorem Hides.twin_writeUnits (units : List String) :
    Twin hidden session.disk (session.writeUnits units).disk :=
  keeps_writeUnits (Twin hidden session.disk)
    (fun _ opened _ offset bytes twin => hides.twin_writeAt opened twin offset bytes)
    (.refl _) units

theorem Hides.twin_flush : Twin hidden session.disk session.flush.disk :=
  keeps_flush (Twin hidden session.disk)
    (fun _ opened _ offset bytes twin => hides.twin_writeAt opened twin offset bytes)
    (.refl _)

end Hides

namespace Twins

variable
  {left right : Session}
  (twins : left.Twins hidden right)

theorem refl (session : Session) : session.Twins hidden session :=
  ⟨.refl _, rfl, rfl, rfl⟩

include twins

theorem hides (hides : left.Hides hidden) : right.Hides hidden := by
  refine ⟨twins.disk.orderly hides.orderly, fun page index opened file => ?_⟩
  have same := twins.page
  rw [opened, Option.map_some, file] at same
  obtain ⟨other, isOpen, otherFile⟩ := Option.map_eq_some_iff.mp same
  obtain ⟨location, isOutput, hidesIt, found⟩ :=
    hides.stored other index isOpen otherFile
  exact ⟨location, isOutput, hidesIt, (twins.disk.entryAt _).symm.trans found⟩

/-- Twin sessions stay twins whatever is written into the page that is open in both. -/
theorem writeUnits
    (hides : left.Hides hidden)
    (leftUnits rightUnits : List String) :
    (left.writeUnits leftUnits).Twins hidden (right.writeUnits rightUnits) where
  disk := ((hides.twin_writeUnits leftUnits).symm.trans twins.disk).trans
    ((twins.hides hides).twin_writeUnits rightUnits)
  compiled := by
    rw [compiled_writeUnits, compiled_writeUnits, twins.compiled]
  calls := by
    rw [calls_writeUnits, calls_writeUnits, twins.calls]
  page := by
    rw [file_writeUnits, file_writeUnits, twins.page]

/-- Twin sessions stay twins when their pages are closed. -/
theorem close
    (hides : left.Hides hidden)
    {leftPage rightPage : Option PageFile}
    (page : leftPage.map PageFile.file = rightPage.map PageFile.file) :
    { left.flush with page := leftPage }.Twins hidden
      { right.flush with page := rightPage } where
  disk := (hides.twin_flush.symm.trans twins.disk).trans
    (twins.hides hides).twin_flush
  compiled := by
    rw [compiled_flush, compiled_flush, twins.compiled]
  calls := by
    rw [calls_flush, calls_flush, twins.calls]
  page := page

theorem begun (source : Location) :
    (left.begin source).Twins hidden (right.begin source) := by
  refine ⟨twins.disk, ?_, twins.calls, twins.page⟩
  rw [Session.begin, Session.begin, twins.compiled]

/-- Code that leaves the disk alone keeps sessions twins, whatever it answers. -/
theorem runCode
    {leftEnvironment rightEnvironment : Environment}
    (leftAlone : LeavesAlone leftEnvironment.machine)
    (rightAlone : LeavesAlone rightEnvironment.machine)
    (call : CodeCall) :
    (Page.runCode leftEnvironment call left).2.Twins hidden
      (Page.runCode rightEnvironment call right).2 where
  disk := by
    have leftSame : (Page.runCode leftEnvironment call left).2.disk = left.disk :=
      leftAlone _ _ _
    have rightSame : (Page.runCode rightEnvironment call right).2.disk = right.disk :=
      rightAlone _ _ _
    rw [leftSame, rightSame]
    exact twins.disk
  compiled := twins.compiled
  calls := congrArg (· ++ [call]) twins.calls
  page := twins.page

/-! ### Hashtags -/

/-- A link starts the compilation of the same document. -/
theorem linked
    (depth : Nat)
    (context : Context)
    (hashtag : Document.Hashtag) :
    linked? depth context hashtag right =
      (linked? depth context hashtag left).map fun next =>
        { next with session := right } := by
  rw [linked?, linked?]
  simp only [← twins.disk.locateSource, ← twins.compiled]
  split
  next target title directive =>
    by_cases isSource : Target.isSource target = true
    · rw [if_pos isSource, if_pos isSource]
      cases locateSource left.disk (context.base.resolve target) with
      | error error => rfl
      | ok source =>
          dsimp only
          split <;> rfl
    · rw [if_neg isSource, if_neg isSource]
      rfl
  next => rfl

section Seen

variable
  {leftEnvironment rightEnvironment : Environment}
  (options : leftEnvironment.options = rightEnvironment.options)
  (orderly : left.disk.IsOrderly)
  {context : Context}
  {hashtag : Document.Hashtag}
  (seen : ∀ target source,
    Directive.ofHashtag? hashtag = some (.nested target) →
    locateSource left.disk (context.base.resolve target) = .ok source →
    ¬hidden source)

include options orderly seen

omit options in
/-- Nested documents that are not hidden read the same. -/
theorem loadSource_nested
    {target : String}
    {source : Location}
    (directive : Directive.ofHashtag? hashtag = some (.nested target))
    (located : locateSource left.disk (context.base.resolve target) = .ok source) :
    loadSource left.disk source = loadSource right.disk source := by
  obtain ⟨index, found⟩ := (locateSource_iff.mp located).2
  exact twins.disk.loadSource orderly found (seen target source directive located)

/-- Hashtags bring in the same documents. -/
theorem transcluded :
    transcluded? leftEnvironment context hashtag left =
      transcluded? rightEnvironment context hashtag right := by
  rw [transcluded?, transcluded?]
  simp only [← twins.disk.locateSource, ← twins.disk.indexedFolders, ← options]
  split
  next target directive =>
    cases located : locateSource left.disk (context.base.resolve target) with
    | error error => rfl
    | ok source =>
        dsimp only
        rw [twins.loadSource_nested orderly seen directive located]
  next => rfl
  next => rfl

/-- Directives are refused for the same. -/
theorem refusal
    {directive : Directive}
    (found : Directive.ofHashtag? hashtag = some directive) :
    refusal? leftEnvironment context left directive =
      refusal? rightEnvironment context right directive := by
  cases directive with
  | link target title => rw [refusal?, refusal?, twins.disk.locateSource]
  | nested target =>
      rw [refusal?, refusal?, ← twins.disk.locateSource]
      cases located : locateSource left.disk (context.base.resolve target) with
      | error error => rfl
      | ok source =>
          dsimp only
          rw [twins.loadSource_nested orderly seen found located]
  | autoNested => rw [refusal?, refusal?, ← twins.disk.indexedFolders, ← options]
  | image | other => rfl

/-- A hashtag that brings in no document and starts no compilation fails with the same
error or writes the same. -/
theorem renderHashtag_alone
    {depth : Nat}
    (alone : transcluded? leftEnvironment context hashtag left = none)
    (unlinked : linked? depth context hashtag left = none) :
    (∃ error,
      renderHashtag leftEnvironment (depth + 1) context hashtag left =
          .fail error left ∧
        renderHashtag rightEnvironment (depth + 1) context hashtag right =
          .fail error right) ∨
    ∃ pieces,
      renderHashtag leftEnvironment (depth + 1) context hashtag left =
          .emit pieces left ∧
        renderHashtag rightEnvironment (depth + 1) context hashtag right =
          .emit pieces right := by
  have rightAlone := (twins.transcluded options orderly seen).symm.trans alone
  have rightUnlinked : linked? depth context hashtag right = none := by
    rw [twins.linked, unlinked, Option.map_none]
  rw [renderHashtag_eq_ownOutcome alone unlinked,
    renderHashtag_eq_ownOutcome rightAlone rightUnlinked, ownOutcome, ownOutcome]
  cases found : Directive.ofHashtag? hashtag with
  | none => exact .inl ⟨_, rfl, rfl⟩
  | some directive =>
      dsimp only
      rw [← twins.refusal options orderly seen found]
      cases refusal? leftEnvironment context left directive with
      | some error => exact .inl ⟨error, rfl, rfl⟩
      | none => exact .inr ⟨_, rfl, rfl⟩

end Seen

end Twins

end Session

/-! ## Twin compilations -/

/-- Compilations of one document, at one depth, in twin sessions. -/
structure Compilation.Twins
    (hidden : Location → Prop)
    (left right : Compilation) : Prop where
  depth : left.depth = right.depth
  source : left.source = right.source
  session : left.session.Twins hidden right.session

/-- The file of a page is open in twin sessions for the same document, or it is refused
with the same error. -/
inductive Compilation.OpensAlike
    (hidden : Location → Prop)
    (leftEnvironment rightEnvironment : Environment)
    (left right : Compilation) : Prop
  | refused
      {error : RenderError}
      {leftAfter rightAfter : Session}
      (leftUnopened : left.opened? leftEnvironment = none)
      (rightUnopened : right.opened? rightEnvironment = none)
      (leftFails : left.result leftEnvironment = (.error error, leftAfter))
      (rightFails : right.result rightEnvironment = (.error error, rightAfter))
      (twins : leftAfter.Twins hidden rightAfter)
  | opened
      {document : Document}
      {leftOpened rightOpened : Session}
      (leftOpens : left.opened? leftEnvironment = some (leftOpened, document))
      (rightOpens : right.opened? rightEnvironment = some (rightOpened, document))
      (twins : leftOpened.Twins hidden rightOpened)

namespace Compilation

section Openings

variable
  {environment : Environment}
  {compilation : Compilation}

theorem refused_of_unread
    {error : RenderError}
    (unread : loadSource compilation.session.disk compilation.source = .error error) :
    compilation.opened? environment = none ∧
      compilation.result environment = (.error error, compilation.begun) := by
  have unfolded : compilation.result environment =
      compileAt environment (renderHashtag environment compilation.depth)
        compilation.source compilation.session := rfl
  constructor
  · rw [opened?]
    dsimp only [Session.begin]
    rw [unread]
  · rw [unfolded, compileAt]
    dsimp only
    rw [unread]
    rfl

section Read

variable
  {document : Document}
  (reads : loadSource compilation.session.disk compilation.source = .ok document)

include reads

theorem refused_of_uncreated
    {failure : Disk.Failure}
    (uncreated : (compilation.styled environment).disk.createFile
      (Location.path compilation.source).page = .error failure) :
    compilation.opened? environment = none ∧
      compilation.result environment =
        (.error (.file (.failed failure)), compilation.styled environment) := by
  have unfolded : compilation.result environment =
      compileAt environment (renderHashtag environment compilation.depth)
        compilation.source compilation.session := rfl
  rw [styled, begun, Session.begin] at uncreated
  constructor
  · rw [opened?]
    dsimp only [Session.begin]
    rw [reads]
    dsimp only
    rw [uncreated]
  · rw [unfolded, compileAt]
    dsimp only
    rw [reads]
    dsimp only
    rw [uncreated]
    rfl

theorem opened_of_created
    {file : OpenFile}
    {disk : Disk}
    (created : (compilation.styled environment).disk.createFile
      (Location.path compilation.source).page = .ok (file, disk)) :
    compilation.opened? environment =
      some ({ compilation.styled environment with
        disk := disk
        page := some ⟨file, 0, .empty⟩ }, document) := by
  rw [styled, begun, Session.begin] at created ⊢
  rw [opened?]
  dsimp only [Session.begin]
  rw [reads]
  dsimp only
  rw [created]

end Read

end Openings

namespace Twins

variable
  {leftEnvironment rightEnvironment : Environment}
  {disk : Disk}
  {left right : Compilation}
  (twins : left.Twins (MayShowCode leftEnvironment.options disk) right)
  (options : leftEnvironment.options = rightEnvironment.options)
  (shows : left.session.Shows disk)
  (met : left.IsMet)

include twins options shows met

/-- A stylesheet is put beside both pages, or beside neither. -/
theorem styled :
    (left.styled leftEnvironment).Twins (MayShowCode leftEnvironment.options disk)
      (right.styled rightEnvironment) := by
  obtain ⟨index, found⟩ := met.found
  have orderly := shows.grows.orderly
  have begun := twins.session.begun left.source
  have writes := begun.disk.writeStylesheet orderly (orderly.isProper found).dropLast
    (orderly.parent found) fun path place configured located shown =>
      mayShowCode_stylesheet shows.alike configured located shown left.source.dropLast
  rw [Compilation.styled, Compilation.styled, Compilation.begun, Compilation.begun,
    withStylesheet, withStylesheet, ← twins.source, ← options, directoryOf]
  generalize Stylesheet.write (left.session.begin left.source).disk _ _ = first at writes
  generalize Stylesheet.write (right.session.begin left.source).disk _ _ = second
    at writes
  cases writes with
  | error error => exact begun
  | ok styled => exact ⟨styled, begun.compiled, begun.calls, begun.page⟩

theorem opensAlike :
    left.OpensAlike (MayShowCode leftEnvironment.options disk) leftEnvironment
      rightEnvironment right := by
  have styled := twins.styled options shows met
  have begun := twins.session.begun left.source
  obtain ⟨index, found⟩ := met.found
  have same := twins.session.disk.loadSource shows.grows.orderly found
    (not_mayShowCode met.isDocument)
  cases reads : Page.loadSource left.session.disk left.source with
  | error error =>
      rw [reads, twins.source] at same
      obtain ⟨leftUnopened, leftFails⟩ :=
        @refused_of_unread leftEnvironment _ _ reads
      obtain ⟨rightUnopened, rightFails⟩ :=
        @refused_of_unread rightEnvironment _ _ same.symm
      refine .refused leftUnopened rightUnopened leftFails rightFails ?_
      rw [Compilation.begun, Compilation.begun, ← twins.source]
      exact begun
  | ok document =>
      rw [reads, twins.source] at same
      have creates := styled.disk.createFile (Location.path left.source).page
      generalize leftCreates : (left.styled leftEnvironment).disk.createFile _ = first
        at creates
      generalize rightCreates : (right.styled rightEnvironment).disk.createFile _ =
        second at creates
      rw [twins.source] at rightCreates
      cases creates with
      | error failure =>
          obtain ⟨leftUnopened, leftFails⟩ := refused_of_uncreated reads leftCreates
          obtain ⟨rightUnopened, rightFails⟩ :=
            refused_of_uncreated same.symm rightCreates
          exact .refused leftUnopened rightUnopened leftFails rightFails styled
      | @ok first second created =>
          obtain ⟨file, disks⟩ := created
          refine .opened (opened_of_created reads leftCreates)
            (opened_of_created same.symm rightCreates)
            ⟨disks, styled.compiled, styled.calls, ?_⟩
          rw [Option.map_some, Option.map_some, file]

end Twins

end Compilation

end Page
end NotePress
