import NotePress.Proofs.Disk.Additions
import NotePress.Proofs.Page.Frame

/-!
# Where pages are written

Making a page writes to the paths of outputs: the pages of the documents that are
compiled on the way, and the stylesheets beside them. On any disk, and whether the page
is completed or not, what differs afterwards is a file that one of these paths leads to.
A call whose own document cannot be taken up writes nothing.
-/

namespace NotePress
namespace Page

open Html (Piece)
open Disk (Differ)

/-- The paths of what is made from documents. -/
def outputsOf (sources : List Location) : List Path :=
  sources.flatMap fun source =>
    [(Location.path source).page, Stylesheet.pathIn (directoryOf source)]

/-- The file of the page that is open, if there is one, is where one of some paths leads
to. -/
def Session.IsLedTo
    (outputs : Path → Prop)
    (session : Session) : Prop :=
  ∀ page index, session.page = some page → page.file = some index →
    ∃ output, outputs output ∧ session.disk.lookup? output = some (.file index)

/-- What a run that writes to some paths does. The same file is open afterwards. -/
structure Session.Accrues
    (outputs : Path → Prop)
    (first last : Session) : Prop where
  disk : Disk.Accrues outputs first.disk last.disk
  file : last.page.map PageFile.file = first.page.map PageFile.file

/-- What keeps a call from taking up its document: there is none, or it cannot be read,
or it does not build. -/
def Hinders
    (disk : Disk)
    (path : Path)
    (error : RenderError) : Prop :=
  locateSource disk path = .error error ∨
    ∃ source, locateSource disk path = .ok source ∧
      loadSource disk source = .error error

section Outputs

variable
  {environment : Environment}
  {outputs : Path → Prop}

/-! ## Writing into the page that is open -/

namespace Session

variable
  {first middle last session : Session}

theorem Accrues.trans
    (front : Accrues outputs first middle)
    (back : Accrues outputs middle last) :
    Accrues outputs first last :=
  ⟨front.disk.trans back.disk, back.file.trans front.file⟩

theorem IsLedTo.of_accrues
    (led : first.IsLedTo outputs)
    (accrues : Accrues outputs first last) :
    last.IsLedTo outputs := by
  intro page index opened same
  have file := accrues.file
  rw [opened, Option.map_some, same] at file
  obtain ⟨before, openedBefore, sameBefore⟩ := Option.map_eq_some_iff.mp file.symm
  obtain ⟨output, written, found⟩ := led before index openedBefore sameBefore
  exact ⟨output, written, accrues.disk.lookup found⟩

variable (led : session.IsLedTo outputs)

include led

theorem IsLedTo.accrues_writeAt
    {page : PageFile}
    (opened : session.page = some page)
    {disk : Disk}
    (offset : Nat)
    (bytes : ByteArray)
    (accrues : Disk.Accrues outputs session.disk disk) :
    Disk.Accrues outputs session.disk (disk.writeAt page.file offset bytes) := by
  refine accrues.trans (Disk.accrues_changeFile (fun index same => ?_) _)
  obtain ⟨output, written, found⟩ := led page index opened same
  exact ⟨output, written, accrues.lookup found⟩

theorem IsLedTo.accrues_writeUnits (units : List String) :
    Accrues outputs session (session.writeUnits units) :=
  ⟨keeps_writeUnits (fun disk => Disk.Accrues outputs session.disk disk)
    (fun _ opened _ => led.accrues_writeAt opened) (.refl _) units,
    session.file_writeUnits units⟩

theorem IsLedTo.accrues_flush :
    Disk.Accrues outputs session.disk session.flush.disk :=
  keeps_flush (fun disk => Disk.Accrues outputs session.disk disk)
    (fun _ opened _ => led.accrues_writeAt opened) (.refl _)

end Session

/-! ## What a run writes -/

namespace Compilation

variable
  {compilation : Compilation}
  (written : ∀ output ∈ outputsOf [compilation.source], outputs output)

include written

theorem accrues_styled :
    Disk.Accrues outputs compilation.session.disk
      (compilation.styled environment).disk := by
  rw [styled, withStylesheet]
  split
  next disk writes =>
    exact Disk.accrues_writeStylesheet
      (written _ (List.mem_cons_of_mem _ List.mem_cons_self)) writes
  next => exact .refl _

/-- A compilation that is refused may put the stylesheet beside the page. -/
theorem accrues_refused
    (unopened : compilation.opened? environment = none) :
    Session.Accrues outputs compilation.session
      (compilation.result environment).2 := by
  obtain ⟨error, after, _, cases, results⟩ := result_of_unopened unopened
  have same : (compilation.result environment).2 = after :=
    congrArg Prod.snd (results compilation.depth)
  rw [same]
  rcases cases with rfl | rfl
  · exact ⟨.refl _, rfl⟩
  · exact ⟨accrues_styled written, congrArg _ page_styled⟩

theorem accrues_opened
    {opened : Session}
    {document : Document}
    (opens : compilation.opened? environment = some (opened, document)) :
    Disk.Accrues outputs compilation.session.disk opened.disk ∧
      opened.IsLedTo outputs := by
  obtain ⟨_, file, disk, creates, rfl⟩ := of_opened opens
  have isOutput := written _ List.mem_cons_self
  obtain ⟨creating, leads⟩ := Disk.accrues_createFile isOutput creates
  refine ⟨(accrues_styled written).trans creating, ?_⟩
  intro page index isOpen same
  cases isOpen
  exact ⟨_, isOutput, leads index same⟩

/-- Afterwards the page that was open before is open again. -/
theorem accrues_page
    {opened last : Session}
    {document : Document}
    (opens : compilation.opened? environment = some (opened, document))
    (inner : opened.IsLedTo outputs → Session.Accrues outputs opened last) :
    Session.Accrues outputs compilation.session
      { last.flush with page := compilation.session.page } := by
  obtain ⟨opening, led⟩ := accrues_opened written opens
  have within := inner led
  exact ⟨(opening.trans within.disk).trans (led.of_accrues within).accrues_flush,
    rfl⟩

end Compilation

theorem outputsOf_append (sources others : List Location) :
    outputsOf (sources ++ others) = outputsOf sources ++ outputsOf others :=
  List.flatMap_append

theorem outputsOf_cons (source : Location) (sources : List Location) :
    outputsOf (source :: sources) = outputsOf [source] ++ outputsOf sources :=
  outputsOf_append [source] sources

/-- A run writes into the page that is open and to the paths of what is made from the
documents of its compilations. -/
theorem Runs.accrues
    (alone : LeavesAlone environment.machine)
    {first last : Session}
    {html : List Piece}
    {started : List Compilation}
    (runs : Runs environment first html started last)
    (led : first.IsLedTo outputs)
    (written : ∀ output ∈ outputsOf (sourcesOf started), outputs output) :
    Session.Accrues outputs first last := by
  induction runs with
  | done session => exact ⟨.refl _, rfl⟩
  | write session pieces => exact led.accrues_writeUnits _
  | run session call =>
      have same : (runCode environment call session).2.disk = session.disk :=
        alone _ _ _
      refine ⟨?_, rfl⟩
      rw [same]
      exact .refl _
  | refuse unopened => exact Compilation.accrues_refused written unopened
  | page opens _ inductionHypothesis =>
      rw [sourcesOf, List.map_cons, outputsOf_cons] at written
      exact Compilation.accrues_page
        (fun output member => written output (List.mem_append_left _ member)) opens
        fun opened => inductionHypothesis opened
          fun output member => written output (List.mem_append_right _ member)
  | andThen _ _ frontHypothesis backHypothesis =>
      rw [sourcesOf, List.map_append, outputsOf_append] at written
      have front := frontHypothesis led
        fun output member => written output (List.mem_append_left _ member)
      exact front.trans (backHypothesis (led.of_accrues front)
        fun output member => written output (List.mem_append_right _ member))

theorem Compilation.accrues
    (alone : LeavesAlone environment.machine)
    (compilation : Compilation) :
    Session.Accrues
      (· ∈ outputsOf (sourcesOf (compilation.started environment)))
      compilation.session (compilation.result environment).2 := by
  have whole : outputsOf (sourcesOf (compilation.started environment)) =
      outputsOf [compilation.source] ++ outputsOf (sourcesOf
        ((compilation.visits environment).flatMap (Visit.started environment))) :=
    outputsOf_cons _ _
  have own : ∀ output ∈ outputsOf [compilation.source],
      output ∈ outputsOf (sourcesOf (compilation.started environment)) := by
    rw [whole]
    exact fun output => List.mem_append_left _
  cases opens : compilation.opened? environment with
  | none => exact accrues_refused own opens
  | some found =>
      obtain ⟨opened, document⟩ := found
      rw [result_of_opened opens]
      refine accrues_page own opens fun led =>
        (course opens fun visit _ => visit.course).runs.accrues alone led ?_
      rw [whole]
      exact fun output => List.mem_append_right _

/-! ## What a call writes -/

theorem accrues_compileFile
    (alone : LeavesAlone environment.machine)
    (session : Session)
    (path : Path) :
    Disk.Accrues (· ∈ outputsOf (sourcesOf (startedBy environment path session)))
      session.disk (compileFile environment path session).2.disk := by
  rw [startedBy]
  cases calls : called? path session with
  | none =>
      rw [compileFile_of_not_called calls]
      exact .refl _
  | some compilation =>
      obtain ⟨same, results⟩ := @compileFile_of_called environment _ _ _ calls
      rw [results, ← same, Option.toList_some, List.flatMap_singleton]
      exact (compilation.accrues alone).disk

/-- A call that is hindered only remembers its document. -/
theorem compileFile_of_hinders
    {session : Session}
    {path : Path}
    {error : RenderError}
    (hinders : Hinders session.disk path error) :
    (compileFile environment path session).1 = .error error ∧
      (compileFile environment path session).2.disk = session.disk ∧
      (compileFile environment path session).2.calls = session.calls := by
  rcases hinders with lost | ⟨source, located, fails⟩
  · rw [compileFile, lost]
    exact ⟨rfl, rfl, rfl⟩
  · rw [compileFile, located]
    dsimp only
    rw [compileAt]
    dsimp only
    rw [fails]
    exact ⟨rfl, rfl, rfl⟩

/-- On an orderly disk the paths of outputs lead to outputs that have no other names. -/
theorem output_of_differ
    (alone : LeavesAlone environment.machine)
    {session : Session}
    (orderly : session.disk.IsOrderly)
    (idle : session.page = none)
    {path : Path}
    {location : Location}
    (differ : Differ session.disk (compileFile environment path session).2.disk
      location) :
    ∃ source ∈ sourcesOf (startedBy environment path session),
      location = source.page ∨ location = source.stylesheet := by
  by_contra untouched
  have apart : ∀ source ∈ sourcesOf (startedBy environment path session),
      location ≠ source.page ∧ location ≠ source.stylesheet :=
    fun source member => not_or.mp fun place => untouched ⟨source, member, place⟩
  have framed := framed_compileFile alone orderly idle path
  have still : ¬Touched environment none (startedBy environment path session)
      location := by
    rintro (⟨_, absent, _⟩ | ⟨compilation, member, place⟩)
    · cases absent
    · obtain ⟨notPage, notStylesheet⟩ := apart _ (List.mem_map_of_mem member)
      exact place.elim notStylesheet fun page => notPage page.1
  exact differ.elim (· (framed.grows.entryAt still))
    (· (framed.grows.contentAt still))

end Outputs

/-- Making a page, whether it is completed or not, changes nothing but files that the
paths of outputs lead to afterwards: the pages of the documents that are compiled on the
way and the stylesheets beside them. What is new stands at the end of such a path. As
long as outputs are no links and have no other names, nothing but the outputs
themselves changes. A call whose own document is missing, cannot be read or does not
build changes nothing at all and runs no code. -/
theorem compileFile_writes_outputs
    {environment : Environment}
    (alone : LeavesAlone environment.machine)
    (session : Session)
    (path : Path) :
    let sources := sourcesOf (startedBy environment path session)
    let result := compileFile environment path session
    (∀ location, Differ session.disk result.2.disk location →
      ∃ output ∈ outputsOf sources, ∃ index,
        result.2.disk.lookup? output = some (.file index) ∧
        result.2.disk.entryAt? location = some (.file index)) ∧
    (∀ location,
      result.2.disk.entryAt? location ≠ session.disk.entryAt? location →
      session.disk.entryAt? location = none ∧
        ∃ output ∈ outputsOf sources,
          result.2.disk.locate output = .ok location) ∧
    (session.disk.IsOrderly → session.page = none →
      ∀ location, Differ session.disk result.2.disk location →
        ∃ source ∈ sources, location = source.page ∨
          location = source.stylesheet) ∧
    ∀ error, Hinders session.disk path error →
      result.1 = .error error ∧ result.2.disk = session.disk ∧
        result.2.calls = session.calls := by
  intro sources result
  have accrues := accrues_compileFile alone session path
  refine ⟨fun location differ => ?_, fun location => accrues.located,
    fun orderly idle location => output_of_differ alone orderly idle,
    fun error => compileFile_of_hinders⟩
  obtain ⟨output, index, written, leads, found⟩ := accrues.found differ
  exact ⟨output, written, index, leads, found⟩

/-- A document nests another one that its page is a link to. The page leads to the file
of that document, so this file and the stylesheet are all that changes. -/
theorem compileFile_writes_outputs_link :
    let environment : Environment := ⟨{}, fun disk _ _ => (.ok "", disk)⟩
    let disk : Disk :=
      { entries :=
          [(["notes"], .directory), (["notes", "a.scrip"], .file 0),
            (["notes", "c.scrip"], .file 1), (["notes", "a.html"], .link "c.scrip")]
        nodes :=
          #[{ content := .ofText "#Nested\x7bc.scrip\x7d" },
            { content := .ofText "c" }]
        workingDirectory := ["notes"] }
    let session : Session := { disk := disk }
    let after := (compileFile environment ⟨"a.scrip"⟩ session).2
    LeavesAlone environment.machine ∧
      Differ session.disk after.disk ["notes", "c.scrip"] ∧
      ∀ location, Differ session.disk after.disk location →
        after.disk.entryAt? location = some (.file 1) ∨
          after.disk.entryAt? location = some (.file 2) := by
  intro environment disk session after
  have alone : LeavesAlone environment.machine := fun _ _ _ => rfl
  have differ : Differ session.disk after.disk ["notes", "c.scrip"] := by
    decide +kernel
  have compiled : after.compiled = [["notes", "a.scrip"]] := by decide +kernel
  have led : ∀ output ∈ outputsOf after.compiled,
      after.disk.lookup? output = some (.file 1) ∨
        after.disk.lookup? output = some (.file 2) := by
    rw [compiled]
    decide +kernel
  refine ⟨alone, differ, fun location differ => ?_⟩
  obtain ⟨output, written, index, leads, found⟩ :=
    (@compileFile_writes_outputs environment alone session ⟨"a.scrip"⟩).1 location
      differ
  obtain ⟨source, among, made⟩ := List.mem_flatMap.mp written
  have begun : source ∈ after.compiled :=
    mem_compiled_compileFile.mpr (.inr among)
  rw [found, ← leads]
  exact led output (List.mem_flatMap.mpr ⟨source, begun, made⟩)

/-- A document that is neither a page nor a stylesheet changes when the page of another
one is a link to it or another name of its file. -/
theorem written_through_links :
    let environment : Environment := ⟨{}, fun disk _ _ => (.ok "", disk)⟩
    let disk : Entry → Disk := fun page =>
      { entries :=
          [(["notes"], .directory), (["notes", "a.scrip"], .file 0),
            (["notes", "c.scrip"], .file 1), (["notes", "a.html"], page)]
        nodes :=
          #[{ content := .ofText "#Nested\x7bc.scrip\x7d" },
            { content := .ofText "c" }]
        workingDirectory := ["notes"] }
    ∀ page ∈ [Entry.link "c.scrip", .file 1],
      let result := compileFile environment ⟨"a.scrip"⟩ { disk := disk page }
      result.1.isOk = true ∧
        Differ (disk page) result.2.disk ["notes", "c.scrip"] ∧
        ∀ source ∈ result.2.compiled,
          ["notes", "c.scrip"] ≠ source.page ∧
            ["notes", "c.scrip"] ≠ source.stylesheet := by
  decide +kernel

end Page
end NotePress
