import NotePress.Proofs.Page.Envelope
import NotePress.Proofs.Page.Findings

/-!
# Calls one after the other

Pages are made by calls, which may fail, and every call goes on with the documents
that the calls before it began. The compilations of all calls, in order, are their
history. A document counts as compiled when it has one in the history, and its page
is the one that was written last: whole if that compilation completed, cut off where
it failed if not.
-/

namespace NotePress
namespace Page

/-- The compilation that a call starts. -/
def called? (path : Path) (session : Session) : Option Compilation :=
  match locateSource session.disk path with
  | .error _ => none
  | .ok source => some ⟨depthBound session.disk, source, session⟩

/-- The session after pages are made in turn, whatever comes of each call. -/
def compileFiles (environment : Environment) : List Path → Session → Session
  | [], session => session
  | path :: others, session =>
      compileFiles environment others (compileFile environment path session).2

/-- The compilations that calls start. -/
def calledIn
    (environment : Environment) : List Path → Session → List Compilation
  | [], _ => []
  | path :: others, session =>
      (called? path session).toList ++
        calledIn environment others (compileFile environment path session).2

/-- The compilations of calls, with those that they start, in order. -/
def historyOf
    (environment : Environment)
    (paths : List Path)
    (session : Session) : List Compilation :=
  (calledIn environment paths session).flatMap (Compilation.started environment)

/-- The last compilation of a document that opened the file of its page. -/
def lastOpened?
    (environment : Environment)
    (history : List Compilation)
    (source : Location) : Option Compilation :=
  (history.filter fun compilation =>
    compilation.source == source &&
      (compilation.opened? environment).isSome).getLast?

section Calls

variable {environment : Environment}

/-- A call that takes up a document makes its page. -/
theorem compileFile_of_called
    {path : Path}
    {session : Session}
    {compilation : Compilation}
    (calls : called? path session = some compilation) :
    compilation.session = session ∧
      compileFile environment path session = compilation.result environment := by
  rw [called?] at calls
  split at calls
  next => cases calls
  next source located =>
    cases calls
    rw [compileFile, located]
    exact ⟨rfl, rfl⟩

/-- A call takes up the document that its path leads to. -/
theorem located_of_called
    {path : Path}
    {session : Session}
    {compilation : Compilation}
    (calls : called? path session = some compilation) :
    locateSource session.disk path = .ok compilation.source := by
  rw [called?] at calls
  split at calls
  next => cases calls
  next source located =>
    cases calls
    exact located

/-- A call that completes has taken up a document. -/
theorem exists_called
    {path : Path}
    {session : Session}
    (complete : (compileFile environment path session).1.isOk = true) :
    ∃ compilation, called? path session = some compilation := by
  rw [compileFile] at complete
  split at complete
  next => cases complete
  next source located =>
    refine ⟨⟨depthBound session.disk, source, session⟩, ?_⟩
    rw [called?, located]

/-- A call that takes up no document changes nothing. -/
theorem compileFile_of_not_called
    {path : Path}
    {session : Session}
    (refused : called? path session = none) :
    (compileFile environment path session).2 = session := by
  rw [called?] at refused
  split at refused
  next error lost => rw [compileFile, lost]
  next => cases refused

/-- The last compilation of a document that opened its page is in the later calls, or
else in those before. -/
theorem lastOpened_append
    (front back : List Compilation)
    (source : Location) :
    lastOpened? environment (front ++ back) source =
      (lastOpened? environment back source).or
        (lastOpened? environment front source) := by
  rw [lastOpened?, List.filter_append, List.getLast?_append]
  rfl

/-- The last compilation of a document that opened its page is one of the history. -/
theorem lastOpened_eq_some
    {history : List Compilation}
    {source : Location}
    {compilation : Compilation}
    (last : lastOpened? environment history source = some compilation) :
    compilation ∈ history ∧ compilation.source = source ∧
      (compilation.opened? environment).isSome = true := by
  have member := List.mem_of_getLast? last
  rw [List.mem_filter, Bool.and_eq_true, beq_iff_eq] at member
  exact member

/-- A document without such a compilation has no page that was opened. -/
theorem lastOpened_eq_none
    {history : List Compilation}
    {source : Location}
    (none : lastOpened? environment history source = none)
    {compilation : Compilation}
    (member : compilation ∈ history)
    (same : compilation.source = source) :
    ¬(compilation.opened? environment).isSome = true := by
  intro opened
  rw [lastOpened?, List.getLast?_eq_none_iff, List.filter_eq_nil_iff] at none
  refine none compilation member ?_
  rw [Bool.and_eq_true, beq_iff_eq]
  exact ⟨same, opened⟩

/-! ## What is on the disk after calls -/

/-- What the page of a document holds, told from a history. -/
def pageAfter
    (environment : Environment)
    (history : List Compilation)
    (before : Disk)
    (source : Location) : Content :=
  match lastOpened? environment history source with
  | none => before.contentAt source.page
  | some compilation => .ofText (Html.print (compilation.html environment))

/-- After a compilation, pages are told from what it started. -/
theorem Ran.contentAt
    {compilation : Compilation}
    {last : Session}
    (ran : Ran environment none compilation.session []
      (compilation.started environment) last)
    (met : ∀ other ∈ compilation.started environment, other.IsMet)
    {source : Location}
    (isDocument : source.IsDocument) :
    last.disk.contentAt source.page =
      pageAfter environment (compilation.started environment)
        compilation.session.disk source := by
  rw [pageAfter]
  split
  next none =>
    refine ran.grows.contentAt fun touched => ?_
    rcases touched.page isDocument_of_unowned met isDocument with
      absent | ⟨other, member, same, opened⟩
    · cases absent
    · exact lastOpened_eq_none none member same opened
  next other found =>
    obtain ⟨member, rfl, opened⟩ := lastOpened_eq_some found
    exact ran.pages other member opened

/-- What calls leave behind. -/
structure Remains
    (environment : Environment)
    (history : List Compilation)
    (first last : Session) : Prop where
  tidy : last.IsTidy none
  compiled : ∀ source, source ∈ last.compiled ↔
    source ∈ first.compiled ∨ source ∈ sourcesOf history
  pages : ∀ source : Location, source.IsDocument →
    last.disk.contentAt source.page =
      pageAfter environment history first.disk source

theorem remains_refl
    {session : Session}
    (tidy : session.IsTidy none) :
    Remains environment [] session session :=
  ⟨tidy, fun _ => (or_iff_left List.not_mem_nil).symm, fun _ _ => rfl⟩

/-- What calls leave behind is what the later ones make of what the earlier ones
left. -/
theorem Remains.trans
    {front back : List Compilation}
    {first middle last : Session}
    (frontRemains : Remains environment front first middle)
    (backRemains : Remains environment back middle last) :
    Remains environment (front ++ back) first last := by
  refine ⟨backRemains.tidy, fun source => ?_, fun source isDocument => ?_⟩
  · rw [backRemains.compiled, frontRemains.compiled, sourcesOf, sourcesOf,
      sourcesOf, List.map_append, List.mem_append, or_assoc]
  · rw [backRemains.pages source isDocument, pageAfter, pageAfter,
      lastOpened_append]
    cases lastOpened? environment back source with
    | some compilation => rfl
    | none =>
        rw [Option.none_or]
        exact frontRemains.pages source isDocument

/-- What is compiled after a compilation was compiled before it or is started by it. -/
theorem Compilation.mem_compiled_result
    {compilation : Compilation}
    {source : Location} :
    source ∈ (compilation.result environment).2.compiled ↔
      source ∈ compilation.session.compiled ∨
        source ∈ sourcesOf (compilation.started environment) := by
  have started : sourcesOf (compilation.started environment) =
      compilation.source :: sourcesOf (compilation.within environment) := rfl
  rw [compilation.compiled_result.1, started, List.mem_append, List.mem_cons,
    ← or_assoc]
  refine or_congr_left ?_
  rw [begun, Session.begin]
  dsimp only
  split
  next already =>
    refine ⟨.inl, fun either => either.elim id ?_⟩
    rintro rfl
    exact List.contains_iff_mem.mp already
  next => rw [List.mem_append, List.mem_singleton]

/-- A compilation leaves behind what it started. -/
theorem Compilation.remains
    (alone : LeavesAlone environment.machine)
    {compilation : Compilation}
    (tidy : compilation.session.IsTidy none)
    (sound : compilation.IsSound environment) :
    Remains environment (compilation.started environment) compilation.session
      (compilation.result environment).2 := by
  have ran := compilation.ran alone tidy sound.isMet
  exact ⟨ran.tidy, fun source => mem_compiled_result,
    fun source => ran.contentAt sound.isMet⟩

/-- Calls leave behind what they started. -/
theorem remains_compileFiles
    (alone : LeavesAlone environment.machine)
    {paths : List Path}
    {session : Session}
    (tidy : session.IsTidy none)
    (sound : ∀ compilation ∈ calledIn environment paths session,
      compilation.IsSound environment) :
    Remains environment (historyOf environment paths session) session
      (compileFiles environment paths session) := by
  induction paths generalizing session with
  | nil => exact remains_refl tidy
  | cons path others inductionHypothesis =>
      rw [historyOf, calledIn, List.flatMap_append, compileFiles]
      cases calls : called? path session with
      | none =>
          have same : (compileFile environment path session).2 = session :=
            compileFile_of_not_called calls
          rw [calledIn, same] at sound
          rw [same]
          exact inductionHypothesis tidy fun compilation member =>
            sound compilation (List.mem_append_right _ member)
      | some compilation =>
          obtain ⟨same, results⟩ :=
            @compileFile_of_called environment _ _ _ calls
          rw [calledIn, calls] at sound
          rw [← same] at tidy
          have here := compilation.remains alone tidy
            (sound compilation (List.mem_append_left _ List.mem_cons_self))
          rw [same, ← results] at here
          rw [Option.toList_some, List.flatMap_singleton]
          exact here.trans (inductionHypothesis here.tidy
            fun other member => sound other (List.mem_append_right _ member))

end Calls

/-- A document counts as compiled when it was begun in some call, whether its
compilation completed or not. Its page holds what its last compilation wrote that
could open the file, which is whole exactly when that compilation completed. -/
theorem compiled_iff_begun
    {environment : Environment}
    (alone : LeavesAlone environment.machine)
    {disk : Disk}
    (orderly : disk.IsOrderly)
    {paths : List Path}
    (sound : ∀ compilation ∈ calledIn environment paths { disk := disk },
      compilation.IsSound environment) :
    let last := compileFiles environment paths { disk := disk }
    let history := historyOf environment paths { disk := disk }
    (∀ source, source ∈ last.compiled ↔ source ∈ sourcesOf history) ∧
      (∀ source : Location, source.IsDocument →
        last.disk.contentAt source.page =
          pageAfter environment history disk source) ∧
      ∀ compilation ∈ history,
        compilation.IsWhole environment ↔
          (compilation.result environment).1.isOk = true := by
  have tidy : Session.IsTidy none { disk := disk } :=
    Session.isTidy_of_idle orderly rfl
  have remains := remains_compileFiles alone tidy sound
  refine ⟨fun source => ?_, remains.pages, fun compilation _ =>
    Compilation.isWhole_iff⟩
  rw [remains.compiled]
  exact or_iff_right List.not_mem_nil

/-- A document fails in the middle of its page. A later call that links it completes,
and the page it links to stays cut off. -/
theorem compiled_iff_begun_cutOff :
    let environment : Environment :=
      ⟨{ externalStylesheets := [] }, fun disk _ _ => (.ok "", disk)⟩
    let disk : Disk :=
      { entries :=
          [(["notes"], .directory), (["notes", "a.scrip"], .file 0),
            (["notes", "b.scrip"], .file 1)]
        nodes :=
          #[{ content := .ofText "#Link\x7bb.scrip\x7d" },
            { content := .ofText "start\n\n#Nested\x7bgone.scrip\x7d" }]
        workingDirectory := ["notes"] }
    let paths : List Path := [⟨"b.scrip"⟩, ⟨"a.scrip"⟩]
    let last := compileFiles environment paths { disk := disk }
    LeavesAlone environment.machine ∧ disk.IsOrderly ∧
      (∀ compilation ∈ calledIn environment paths { disk := disk },
        compilation.IsSound environment) ∧
      ((calledIn environment paths { disk := disk }).map fun compilation =>
        (compilation.result environment).1.isOk) = [false, true] ∧
      ["notes", "b.scrip"] ∈ last.compiled ∧
      pageAfter environment (historyOf environment paths { disk := disk }) disk
          ["notes", "b.scrip"] =
        .ofText ("<html><head><link rel=\"stylesheet\" href=\"scrip.css\">" ++
          "</head><body><p>start</p>\n\n<p>") := by
  intro environment disk paths last
  have alone : LeavesAlone environment.machine := fun _ _ _ => rfl
  have orderly : disk.IsOrderly := by decide +kernel
  have checked : (calledIn environment paths { disk := disk }).all
      (Compilation.checks environment 3) = true := by decide +kernel
  have sound : ∀ compilation ∈ calledIn environment paths { disk := disk },
      compilation.IsSound environment :=
    fun compilation member => Compilation.isSound_of_checks
      (List.all_eq_true.mp checked compilation member)
  obtain ⟨compiled, pages, _⟩ :=
    @compiled_iff_begun environment alone disk orderly paths sound
  refine ⟨alone, orderly, sound, by decide +kernel,
    (compiled _).mpr (by decide +kernel), ?_⟩
  exact (pages ["notes", "b.scrip"] (by decide)).symm.trans (by decide +kernel)

end Page
end NotePress
