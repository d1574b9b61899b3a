import NotePress.Proofs.Page.Histories

/-!
# What pages leave alone

A page is made from any file that a path leads to, whatever extension it has. Making it
writes to the places of outputs only: the pages of the files that are compiled on the
way, and the stylesheets beside them. As long as code leaves disks alone and outputs
have no other names, whatever else stands on the disk stays as it is, whether the page
is completed or not.
-/

namespace NotePress
namespace Page

open Html (Piece)
open Disk (Grows)

/-- A session on an orderly disk. The file of the page that is open, if there is one,
stands at the place of the page of its owner. -/
structure Session.WritesTo (owner : Option Location) (session : Session) : Prop where
  orderly : session.disk.IsOrderly
  stored : ∀ page index, session.page = some page → page.file = some index →
    ∃ source, owner = some source ∧ source.page.IsOutput ∧
      session.disk.entryAt? source.page = some (.file index)

/-- What a run writes: the page that is open, the pages of what is compiled in it and the
stylesheets beside them. It compiles on orderly disks. -/
structure Framed
    (environment : Environment)
    (owner : Option Location)
    (first : Session)
    (started : List Compilation)
    (last : Session) : Prop where
  writesTo : last.WritesTo owner
  grows : Grows (Touched environment owner started) first.disk last.disk
  orderly : ∀ compilation ∈ started, compilation.session.disk.IsOrderly

/-- The compilations that a call starts, with those that these start, in order. -/
def startedBy
    (environment : Environment)
    (path : Path)
    (session : Session) : List Compilation :=
  (called? path session).toList.flatMap (Compilation.started environment)

section Frames

variable
  {environment : Environment}
  {owner : Option Location}

theorem Touched.mono
    {started others : List Compilation}
    (among : started ⊆ others)
    {location : Location}
    (touched : Touched environment owner started location) :
    Touched environment owner others location :=
  touched.imp_right fun ⟨compilation, member, place⟩ =>
    ⟨compilation, among member, place⟩

namespace Session.WritesTo

variable
  {session next : Session}
  {touched : Location → Prop}

theorem of_idle
    (orderly : session.disk.IsOrderly)
    (idle : session.page = none) :
    session.WritesTo owner := by
  refine ⟨orderly, fun page index opened => ?_⟩
  rw [idle] at opened
  cases opened

variable (writesTo : session.WritesTo owner)

include writesTo

/-- The same file stays open while a disk grows. -/
theorem of_grows
    (file : next.page.map PageFile.file = session.page.map PageFile.file)
    (grows : Grows touched session.disk next.disk) :
    next.WritesTo owner := by
  refine ⟨grows.orderly, fun page index opened same => ?_⟩
  rw [opened, Option.map_some, same] at file
  obtain ⟨before, openedBefore, sameBefore⟩ := Option.map_eq_some_iff.mp file.symm
  obtain ⟨source, owns, isOutput, found⟩ :=
    writesTo.stored before index openedBefore sameBefore
  exact ⟨source, owns, isOutput, grows.stays found⟩

/-- What is written into the page that is open changes at most that page. -/
theorem grows_writeAt
    {page : PageFile}
    (opened : session.page = some page)
    {started : List Compilation}
    {disk : Disk}
    (grows : Grows (Touched environment owner started) session.disk disk)
    (offset : Nat)
    (bytes : ByteArray) :
    Grows (Touched environment owner started) session.disk
      (disk.writeAt page.file offset bytes) := by
  cases file : page.file with
  | none => exact grows
  | some index =>
      obtain ⟨source, owns, isOutput, found⟩ :=
        writesTo.stored page index opened file
      refine grows.trans ((Disk.grows_changeFile grows.orderly isOutput
        (grows.stays found) _).mono ?_)
      exact fun location same => .inl ⟨source, owns, same⟩

theorem grows_writeUnits (units : List String) :
    Grows (Touched environment owner []) session.disk
      (session.writeUnits units).disk :=
  Session.keeps_writeUnits
    (fun disk => Grows (Touched environment owner []) session.disk disk)
    (fun _ opened _ offset bytes grows =>
      writesTo.grows_writeAt opened grows offset bytes)
    (.refl writesTo.orderly) units

theorem grows_flush :
    Grows (Touched environment owner []) session.disk session.flush.disk :=
  Session.keeps_flush
    (fun disk => Grows (Touched environment owner []) session.disk disk)
    (fun _ opened _ offset bytes grows =>
      writesTo.grows_writeAt opened grows offset bytes)
    (.refl writesTo.orderly)

end Session.WritesTo

/-! ## What a run writes -/

/-- What a run without an open page writes are outputs by their names. -/
theorem Framed.isOutput
    {first last : Session}
    {started : List Compilation}
    (framed : Framed environment none first started last)
    (isFound : ∀ compilation ∈ started, compilation.IsFound)
    {location : Location}
    (touched : Touched environment none started location) :
    location.IsOutput := by
  rcases touched with ⟨_, absent, _⟩ | ⟨compilation, member, rfl | ⟨rfl, _⟩⟩
  · cases absent
  · exact Location.isOutput_stylesheet _
  · exact Compilation.isOutput_page (framed.orderly compilation member)
      (isFound compilation member)

namespace Compilation

variable
  {compilation : Compilation}
  (writesTo : compilation.session.WritesTo owner)
  (isFound : compilation.IsFound)

include writesTo isFound

/-- A compilation that is refused writes at most the stylesheet. -/
theorem framed_refused
    (unopened : compilation.opened? environment = none) :
    Framed environment owner compilation.session [compilation]
      (compilation.result environment).2 := by
  obtain ⟨error, after, _, cases, results⟩ := result_of_unopened unopened
  have same : (compilation.result environment).2 = after :=
    congrArg Prod.snd (results compilation.depth)
  have styles := @grows_styled environment _ writesTo.orderly isFound
  have orderly : ∀ other ∈ [compilation], other.session.disk.IsOrderly :=
    List.forall_mem_singleton.mpr writesTo.orderly
  rw [same]
  rcases cases with rfl | rfl
  · have still : Grows (Touched environment owner [compilation])
        compilation.session.disk compilation.begun.disk :=
      .refl writesTo.orderly
    exact ⟨writesTo.of_grows rfl still, still, orderly⟩
  · exact ⟨writesTo.of_grows (congrArg _ page_styled) styles,
      styles.mono fun location beside =>
        .inr ⟨compilation, List.mem_cons_self, .inl beside⟩, orderly⟩

/-- When the file of a page is open, it stands at the place of the page. -/
theorem writesTo_opened
    {opened : Session}
    {document : Document}
    (opens : compilation.opened? environment = some (opened, document)) :
    opened.WritesTo (some compilation.source) ∧
      Grows (Touched environment owner [compilation]) compilation.session.disk
        opened.disk := by
  obtain ⟨file, disk, made, same, creation⟩ :=
    creates_opened writesTo.orderly isFound opens
  have isOpened : (compilation.opened? environment).isSome = true := by
    rw [opens]
    rfl
  have isOutput := isOutput_page writesTo.orderly isFound
  have styles := @grows_styled environment _ writesTo.orderly isFound
  rw [same]
  refine ⟨⟨creation.grows.orderly, ?_⟩, (styles.mono ?_).trans
    (creation.grows.mono ?_)⟩
  · intro page index isOpen stored
    cases isOpen
    obtain rfl := Option.some.inj (creation.file.symm.trans stored)
    exact ⟨compilation.source, rfl, isOutput, creation.found⟩
  · exact fun location beside =>
      .inr ⟨compilation, List.mem_cons_self, .inl beside⟩
  · exact fun location same =>
      .inr ⟨compilation, List.mem_cons_self, .inr ⟨same, isOpened⟩⟩

/-- A compilation that opens the file of its page writes to that file, besides what is
started in the page. -/
theorem framed_page
    {opened last : Session}
    {document : Document}
    {started : List Compilation}
    (opens : compilation.opened? environment = some (opened, document))
    (inner : Framed environment (some compilation.source) opened started last) :
    Framed environment owner compilation.session (compilation :: started)
      { last.flush with page := compilation.session.page } := by
  have isOpened : (compilation.opened? environment).isSome = true := by
    rw [opens]
    rfl
  -- What is written to the open page counts as its compilation once it is closed.
  have closed : ∀ {later : List Compilation}, later ⊆ started → ∀ location,
      Touched environment (some compilation.source) later location →
        Touched environment owner (compilation :: started) location := by
    rintro later among location (⟨source, same, rfl⟩ | ⟨other, member, place⟩)
    · obtain rfl := Option.some.inj same
      exact .inr ⟨compilation, List.mem_cons_self, .inr ⟨rfl, isOpened⟩⟩
    · exact .inr ⟨other, List.mem_cons_of_mem _ (among member), place⟩
  obtain ⟨_, opening⟩ := writesTo_opened writesTo isFound opens
  have singleton : [compilation] ⊆ compilation :: started :=
    List.cons_subset_cons _ (List.nil_subset _)
  have grows := ((opening.mono fun _ => Touched.mono singleton).trans
    (inner.grows.mono (closed (List.Subset.refl _)))).trans
    (inner.writesTo.grows_flush.mono (closed (List.nil_subset _)))
  exact ⟨writesTo.of_grows rfl grows, grows,
    List.forall_mem_cons.mpr ⟨writesTo.orderly, inner.orderly⟩⟩

end Compilation

/-- A run in which files are compiled writes nothing else than pages and
stylesheets. -/
theorem Runs.framed
    (alone : LeavesAlone environment.machine)
    {first last : Session}
    {html : List Piece}
    {started : List Compilation}
    (runs : Runs environment first html started last)
    (writesTo : first.WritesTo owner)
    (isFound : ∀ compilation ∈ started, compilation.IsFound) :
    Framed environment owner first started last := by
  induction runs generalizing owner with
  | done session =>
      exact ⟨writesTo, .refl writesTo.orderly, List.forall_mem_nil _⟩
  | write session pieces =>
      have grows := @Session.WritesTo.grows_writeUnits environment owner session
        writesTo (Html.units pieces)
      exact ⟨writesTo.of_grows (session.file_writeUnits _) grows, grows,
        List.forall_mem_nil _⟩
  | run session call =>
      have same : (runCode environment call session).2.disk = session.disk :=
        alone _ _ _
      have grows : Grows (Touched environment owner []) session.disk
          (runCode environment call session).2.disk := by
        rw [same]
        exact .refl writesTo.orderly
      exact ⟨writesTo.of_grows rfl grows, grows, List.forall_mem_nil _⟩
  | refuse unopened =>
      exact Compilation.framed_refused writesTo (isFound _ List.mem_cons_self)
        unopened
  | @page compilation opened last document started opens _ inductionHypothesis =>
      have own := isFound compilation List.mem_cons_self
      obtain ⟨openedWrites, _⟩ := Compilation.writesTo_opened writesTo own opens
      exact Compilation.framed_page writesTo own opens
        (inductionHypothesis openedWrites
          fun other member => isFound other (List.mem_cons_of_mem _ member))
  | andThen _ _ frontHypothesis backHypothesis =>
      have front := frontHypothesis writesTo
        fun other member => isFound other (List.mem_append_left _ member)
      have back := backHypothesis front.writesTo
        fun other member => isFound other (List.mem_append_right _ member)
      refine ⟨back.writesTo,
        (front.grows.mono fun _ => Touched.mono (List.subset_append_left _ _)).trans
          (back.grows.mono fun _ => Touched.mono (List.subset_append_right _ _)),
        fun compilation member => ?_⟩
      exact (List.mem_append.mp member).elim (front.orderly compilation)
        (back.orderly compilation)

/-! ## What a call writes -/

/-- What is compiled after a call was compiled before it or is started by it. -/
theorem mem_compiled_compileFile
    {path : Path}
    {session : Session}
    {source : Location} :
    source ∈ (compileFile environment path session).2.compiled ↔
      source ∈ session.compiled ∨
        source ∈ sourcesOf (startedBy environment path session) := by
  rw [startedBy]
  cases calls : called? path session with
  | none =>
      rw [compileFile_of_not_called calls]
      exact (or_iff_left List.not_mem_nil).symm
  | some compilation =>
      obtain ⟨same, results⟩ := @compileFile_of_called environment _ _ _ calls
      rw [results, ← same, Option.toList_some, List.flatMap_singleton]
      exact Compilation.mem_compiled_result

/-- What is compiled during a visit are files. -/
theorem Visit.isFound_of_mem_started
    {visit : Visit}
    {compilation : Compilation}
    (member : compilation ∈ visit.started environment) :
    compilation.IsFound := by
  obtain ⟨found, _, starts⟩ := occurs_of_mem_started member
  obtain ⟨target, title, start⟩ := startsBy_of_starts starts
  rw [Compilation.IsFound, start.session]
  exact (locateSource_iff.mp start.located).2

/-- What a call compiles are files. -/
theorem isFound_startedBy
    {path : Path}
    {session : Session}
    {compilation : Compilation}
    (member : compilation ∈ startedBy environment path session) :
    compilation.IsFound := by
  obtain ⟨first, calls, within⟩ := List.mem_flatMap.mp member
  rw [Option.mem_toList] at calls
  have same := (@compileFile_of_called environment _ _ _ calls).1
  rcases List.mem_cons.mp within with rfl | later
  · rw [Compilation.IsFound, same]
    exact (locateSource_iff.mp (located_of_called calls)).2
  · obtain ⟨visit, _, started⟩ := List.mem_flatMap.mp later
    exact visit.isFound_of_mem_started started

/-- A call writes nothing else than the pages of what it compiles and the stylesheets
beside them. -/
theorem framed_compileFile
    (alone : LeavesAlone environment.machine)
    {session : Session}
    (orderly : session.disk.IsOrderly)
    (idle : session.page = none)
    (path : Path) :
    Framed environment none session (startedBy environment path session)
      (compileFile environment path session).2 := by
  have writesTo : session.WritesTo none := .of_idle orderly idle
  have isFound : ∀ compilation ∈ startedBy environment path session,
      compilation.IsFound := fun _ => isFound_startedBy
  rw [startedBy] at isFound ⊢
  cases calls : called? path session with
  | none =>
      rw [compileFile_of_not_called calls]
      exact ⟨writesTo, .refl orderly, List.forall_mem_nil _⟩
  | some compilation =>
      obtain ⟨same, results⟩ := @compileFile_of_called environment _ _ _ calls
      have runs : Runs environment session [] (compilation.started environment)
          (compilation.result environment).2 := by
        rw [← same]
        exact Compilation.runs fun visit _ => visit.course
      rw [calls, Option.toList_some, List.flatMap_singleton] at isFound
      rw [results, Option.toList_some, List.flatMap_singleton]
      exact runs.framed alone writesTo isFound

end Frames

/-- Making a page, whether it is completed or not, keeps every file that is not itself
the page of a file compiled on the way or a stylesheet beside one, so every file that is
no output by its name. Files with the same extension that are compiled on the way have
different pages. -/
theorem compileFile_keeps_inputs
    {environment : Environment}
    (alone : LeavesAlone environment.machine)
    {session : Session}
    (orderly : session.disk.IsOrderly)
    (idle : session.page = none)
    (path : Path) :
    let started := startedBy environment path session
    let after := (compileFile environment path session).2
    (∀ input : Location,
        (¬input.IsOutput ∨ ∀ source ∈ sourcesOf started,
          input ≠ source.page ∧ input ≠ source.stylesheet) →
        after.disk.entryAt? input = session.disk.entryAt? input ∧
          after.disk.contentAt input = session.disk.contentAt input) ∧
      ∀ source ∈ sourcesOf started, ∀ other ∈ sourcesOf started,
        source.extension? = other.extension? →
        (Location.path source).page = (Location.path other).page →
        source = other := by
  intro started after
  have framed : Framed environment none session started after :=
    framed_compileFile alone orderly idle path
  have isFound : ∀ compilation ∈ started, compilation.IsFound :=
    fun _ => isFound_startedBy
  refine ⟨fun input apart => ?_, ?_⟩
  · have untouched : ¬Touched environment none started input := by
      intro touched
      rcases apart with other | apart
      · exact other (framed.isOutput isFound touched)
      · obtain ⟨compilation, member, place⟩ :=
          touched.resolve_left fun ⟨_, absent, _⟩ =>
            absurd absent.symm (Option.some_ne_none _)
        obtain ⟨notPage, notStylesheet⟩ :=
          apart compilation.source (List.mem_map_of_mem member)
        exact place.elim notStylesheet fun page => notPage page.1
    exact ⟨framed.grows.entryAt untouched, framed.grows.contentAt untouched⟩
  · intro source among other otherAmong extension same
    obtain ⟨left, leftMember, rfl⟩ := List.mem_map.mp among
    obtain ⟨right, rightMember, rfl⟩ := List.mem_map.mp otherAmong
    obtain ⟨leftProper, leftNonempty⟩ :=
      Compilation.isProper_source (framed.orderly left leftMember)
        (isFound left leftMember)
    obtain ⟨rightProper, rightNonempty⟩ :=
      Compilation.isProper_source (framed.orderly right rightMember)
        (isFound right rightMember)
    exact Location.eq_of_page extension (Location.page_eq_of_path leftProper
      rightProper leftNonempty rightNonempty same)

/-- The page of a text file links to a document and nests a page that no document has.
All three are kept. -/
theorem compileFile_keeps_inputs_textFile :
    let environment : Environment := ⟨{}, fun disk _ _ => (.ok "", disk)⟩
    let disk : Disk :=
      { entries :=
          [(["notes"], .directory), (["notes", "a.txt"], .file 0),
            (["notes", "b.scrip"], .file 1), (["notes", "c.html"], .file 2)]
        nodes :=
          #[{ content := .ofText "#Link\x7bb.scrip\x7d #Nested\x7bc.html\x7d" },
            { content := .ofText "b" }, { content := .ofText "c" }]
        workingDirectory := ["notes"] }
    let session : Session := { disk := disk }
    let after := (compileFile environment ⟨"a.txt"⟩ session).2
    LeavesAlone environment.machine ∧ session.disk.IsOrderly ∧
      session.page = none ∧
      after.compiled = [["notes", "a.txt"], ["notes", "b.scrip"]] ∧
      ∀ name ∈ ["a.txt", "b.scrip", "c.html"],
        after.disk.contentAt ["notes", name] =
          session.disk.contentAt ["notes", name] := by
  intro environment disk session after
  have alone : LeavesAlone environment.machine := fun _ _ _ => rfl
  have orderly : session.disk.IsOrderly := by decide +kernel
  have compiled : after.compiled =
      [["notes", "a.txt"], ["notes", "b.scrip"]] := by
    decide +kernel
  have apart : ∀ name ∈ ["a.txt", "b.scrip", "c.html"],
      ∀ source ∈ after.compiled, ["notes", name] ≠ source.page ∧
        ["notes", name] ≠ source.stylesheet := by
    rw [compiled]
    decide +kernel
  obtain ⟨kept, _⟩ :=
    @compileFile_keeps_inputs environment alone session orderly rfl ⟨"a.txt"⟩
  refine ⟨alone, orderly, rfl, compiled, fun name member => ?_⟩
  refine (kept ["notes", name] (.inr fun source started => ?_)).2
  exact apart name member source (mem_compiled_compileFile.mpr (.inr started))

/-- A file with the extension of pages is overwritten by its own page, a document by the
page of another one that leads to it through a link or another name, and a document that
nests another one by code that runs. A text file and a document that it links to can
share a page. -/
theorem inputs_overwritten :
    let disk : List (Location × Entry) → List String → Disk :=
      fun entries texts =>
        { entries := (["notes"], .directory) :: entries
          nodes := (texts.map fun text => { content := .ofText text }).toArray
          workingDirectory := ["notes"] }
    let idle : Machine := fun disk _ _ => (.ok "", disk)
    let writes : Machine := fun disk _ _ =>
      (.ok "", disk.writeAt (some 1) 0 "d".toUTF8)
    let nests : String := "#Nested\x7bc.scrip\x7d"
    let changes : List (Machine × String × Location × Disk) :=
      [(idle, "a.html", ["notes", "a.html"],
          disk [(["notes", "a.html"], .file 0)] ["a"]),
        (idle, "a.scrip", ["notes", "c.scrip"],
          disk
            [(["notes", "a.scrip"], .file 0), (["notes", "c.scrip"], .file 1),
              (["notes", "a.html"], .link "c.scrip")]
            [nests, "c"]),
        (idle, "a.scrip", ["notes", "c.scrip"],
          disk
            [(["notes", "a.scrip"], .file 0), (["notes", "c.scrip"], .file 1),
              (["notes", "a.html"], .file 1)]
            [nests, "c"]),
        (writes, "a.scrip", ["notes", "c.scrip"],
          disk [(["notes", "a.scrip"], .file 0), (["notes", "c.scrip"], .file 1)]
            [nests ++ "\n\n```sh\n:\n```", "c"])]
    (∀ change ∈ changes,
      let environment : Environment := ⟨{}, change.1⟩
      let session : Session := { disk := change.2.2.2 }
      let result := compileFile environment ⟨change.2.1⟩ session
      result.1.isOk = true ∧
        result.2.disk.contentAt change.2.2.1 ≠
          session.disk.contentAt change.2.2.1) ∧
    let environment : Environment := ⟨{}, idle⟩
    let session : Session :=
      { disk := disk
          [(["notes", "a.txt"], .file 0), (["notes", "a.scrip"], .file 1)]
          ["#Link\x7ba.scrip\x7d", "a"] }
    let result := compileFile environment ⟨"a.txt"⟩ session
    result.1.isOk = true ∧
      result.2.compiled = [["notes", "a.txt"], ["notes", "a.scrip"]] ∧
      ∀ source ∈ result.2.compiled,
        (Location.path source).page = ⟨"/notes/a.html"⟩ := by
  decide +kernel

end Page
end NotePress
