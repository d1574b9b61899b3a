import NotePress.Proofs.Page.Pages

/-!
# Documents that are found

Links, nested documents and lists of folders look for files and take what they find
for documents. The pages that a run makes are seen by nobody as long as all that is
found has the extension of documents, which can be checked along the run.
-/

namespace NotePress
namespace Page

open Html (Piece)
open Disk (Grows)

/-- The files that a visit takes for documents. -/
def Visit.finds (environment : Environment) (visit : Visit) : List Location :=
  match visit.directive? with
  | some (.link target _) =>
      if Target.isSource target then
        (locateSource visit.session.disk
          (visit.context.base.resolve target)).toOption.toList
      else
        []
  | some (.nested target) =>
      (locateSource visit.session.disk
        (visit.context.base.resolve target)).toOption.toList
  | some .autoNested =>
      match Source.indexedFolders visit.session.disk visit.context.base
          environment.options.indexFileName with
      | .error _ => []
      | .ok folders =>
          folders.filterMap fun name =>
            (visit.session.disk.locate
              (Path.join (Path.join visit.context.base ⟨name⟩)
                ⟨environment.options.indexFileName⟩)).toOption
  | _ => []

/-- All files that are taken for documents in a run have the extension of
documents. -/
def FindsDocuments (environment : Environment) (visits : List Visit) : Prop :=
  ∀ visit, Occurs environment visits visit →
    ∀ source ∈ visit.finds environment, source.IsDocument

/-- Whether all files that are taken for documents in visits have the extension of
documents. Visits are followed up to a depth. -/
def onlyDocuments (environment : Environment) : Nat → List Visit → Bool
  | 0, visits => visits.isEmpty
  | depth + 1, visits =>
      visits.all fun visit =>
        (visit.finds environment).all (fun source => source.IsDocument) &&
          onlyDocuments environment depth (visit.inside environment) &&
          match visit.starts? with
          | none => true
          | some next => onlyDocuments environment depth (next.visits environment)

section Found

variable {environment : Environment}

/-- A link finds its source document. -/
theorem mem_finds_of_link
    {visit : Visit}
    {target title : String}
    {source : Location}
    (link : visit.directive? = some (.link target title))
    (isSource : Target.isSource target = true)
    (located : locateSource visit.session.disk
      (visit.context.base.resolve target) = .ok source) :
    source ∈ visit.finds environment := by
  rw [Visit.finds, link]
  dsimp only
  rw [if_pos isSource, located]
  exact List.mem_cons_self

/-- A hashtag that nests a document finds it. -/
theorem mem_finds_of_nested
    {visit : Visit}
    {target : String}
    {source : Location}
    (nested : visit.directive? = some (.nested target))
    (located : locateSource visit.session.disk
      (visit.context.base.resolve target) = .ok source) :
    source ∈ visit.finds environment := by
  rw [Visit.finds, nested]
  dsimp only
  rw [located]
  exact List.mem_cons_self

/-- A list of folders finds their index documents. -/
theorem mem_finds_of_listed
    {visit : Visit}
    {folders : List String}
    {name : String}
    {source : Location}
    (autoNested : visit.directive? = some .autoNested)
    (lists : Source.indexedFolders visit.session.disk visit.context.base
      environment.options.indexFileName = .ok folders)
    (listed : name ∈ folders)
    (located : visit.session.disk.locate
      (Path.join (Path.join visit.context.base ⟨name⟩)
        ⟨environment.options.indexFileName⟩) = .ok source) :
    source ∈ visit.finds environment := by
  rw [Visit.finds, autoNested]
  dsimp only
  rw [lists]
  dsimp only
  refine List.mem_filterMap.mpr ⟨name, listed, ?_⟩
  rw [located]
  rfl

/-- What the check along a run accepts finds documents only. -/
theorem findsDocuments_of_onlyDocuments
    {depth : Nat}
    {visits : List Visit}
    (only : onlyDocuments environment depth visits = true) :
    FindsDocuments environment visits := by
  have checked : ∀ visit, Occurs environment visits visit →
      ∃ depth, onlyDocuments environment depth [visit] = true := by
    intro visit occurs
    have single : ∀ {depth visits}, onlyDocuments environment depth visits = true →
        ∀ visit ∈ visits, ∃ depth,
          onlyDocuments environment depth [visit] = true := by
      intro depth visits only visit member
      cases depth with
      | zero =>
          rw [onlyDocuments, List.isEmpty_iff] at only
          rw [only] at member
          cases member
      | succ depth =>
          rw [onlyDocuments, List.all_eq_true] at only
          refine ⟨depth + 1, ?_⟩
          rw [onlyDocuments, List.all_cons, only visit member]
          rfl
    induction occurs with
    | start member => exact single only _ member
    | inside _ member inductionHypothesis =>
        obtain ⟨depth, checked⟩ := inductionHypothesis
        cases depth with
        | zero => cases checked
        | succ depth =>
            rw [onlyDocuments, List.all_cons, Bool.and_eq_true, Bool.and_eq_true,
              Bool.and_eq_true] at checked
            exact single checked.1.1.2 _ member
    | linked _ starts member inductionHypothesis =>
        obtain ⟨depth, checked⟩ := inductionHypothesis
        cases depth with
        | zero => cases checked
        | succ depth =>
            rw [onlyDocuments, List.all_cons, Bool.and_eq_true, Bool.and_eq_true,
              starts] at checked
            exact single checked.1.2 _ member
  intro visit occurs source found
  obtain ⟨depth, checked⟩ := checked visit occurs
  cases depth with
  | zero => cases checked
  | succ depth =>
      rw [onlyDocuments, List.all_cons, Bool.and_eq_true, Bool.and_eq_true,
        Bool.and_eq_true, List.all_eq_true] at checked
      exact of_decide_eq_true (checked.1.1.1 source found)

/-! ## Runs that find documents -/

section Runs

variable
  {visits : List Visit}
  (finds : FindsDocuments environment visits)

include finds

/-- What a part of a run finds is found in the run. -/
theorem FindsDocuments.of_occurs
    {later : List Visit}
    (among : ∀ visit ∈ later, Occurs environment visits visit) :
    FindsDocuments environment later :=
  fun visit occurs => finds visit (occurs.trans among)

/-- What is compiled in a run is met. -/
theorem FindsDocuments.isMet
    {visit : Visit}
    (occurs : Occurs environment visits visit)
    {compilation : Compilation}
    (member : compilation ∈ visit.started environment) :
    compilation.IsMet := by
  obtain ⟨found, later, starts⟩ := occurs_of_mem_started member
  obtain ⟨target, title, start⟩ := startsBy_of_starts starts
  refine ⟨finds found (later.trans (List.forall_mem_singleton.mpr occurs)) _
    (mem_finds_of_link start.link start.isSource start.located), ?_⟩
  rw [start.session]
  exact (locateSource_iff.mp start.located).2

/-- What is started in a run is met there. -/
theorem FindsDocuments.isMet_of_mem
    {compilation : Compilation}
    (member : compilation ∈ visits.flatMap (Visit.started environment)) :
    compilation.IsMet := by
  obtain ⟨visit, among, within⟩ := List.mem_flatMap.mp member
  exact finds.isMet (.start among) within

end Runs

/-- A compilation of a document in which only documents are found. -/
structure Compilation.IsSound
    (environment : Environment)
    (compilation : Compilation) : Prop where
  met : compilation.IsMet
  finds : FindsDocuments environment (compilation.visits environment)

/-- Whether a compilation is sound, with visits followed up to a depth. -/
def Compilation.checks
    (environment : Environment)
    (depth : Nat)
    (compilation : Compilation) : Bool :=
  compilation.source.IsDocument &&
    (compilation.session.disk.nodeAt? compilation.source).isSome &&
    onlyDocuments environment depth (compilation.visits environment)

/-- A compilation that the check accepts is sound. -/
theorem Compilation.isSound_of_checks
    {depth : Nat}
    {compilation : Compilation}
    (checked : compilation.checks environment depth = true) :
    compilation.IsSound environment := by
  rw [checks, Bool.and_eq_true, Bool.and_eq_true, decide_eq_true_iff] at checked
  obtain ⟨⟨isDocument, found⟩, only⟩ := checked
  refine ⟨⟨isDocument, ?_⟩, findsDocuments_of_onlyDocuments only⟩
  rw [Disk.nodeAt?] at found
  split at found
  next index here => exact ⟨index, here⟩
  next => cases found

/-- What a sound compilation starts is met. -/
theorem Compilation.IsSound.isMet
    {compilation : Compilation}
    (sound : compilation.IsSound environment) :
    ∀ other ∈ compilation.started environment, other.IsMet :=
  List.forall_mem_cons.mpr ⟨sound.met, fun _ => sound.finds.isMet_of_mem⟩

/-- What is compiled in a run is sound. -/
theorem FindsDocuments.isSound
    {visits : List Visit}
    (finds : FindsDocuments environment visits)
    {visit : Visit}
    (occurs : Occurs environment visits visit)
    {next : Compilation}
    (starts : visit.starts? = some next) :
    next.IsSound environment := by
  refine ⟨finds.isMet occurs ?_,
    finds.of_occurs fun inner inside => .linked occurs starts inside⟩
  rw [Visit.started_eq, starts]
  exact List.mem_append_left _ List.mem_cons_self

/-! ## What visits see -/

/-- A session that shows to documents what a disk shows, of which only outputs
changed. -/
structure Session.Shows (disk : Disk) (session : Session) : Prop where
  tidy : ∃ owner, session.IsTidy owner
  grows : Grows Location.IsOutput disk session.disk

section Shown

variable
  (alone : LeavesAlone environment.machine)
  {disk : Disk}

/-- A tidy session shows what its own disk shows. -/
theorem Session.IsTidy.shows
    {owner : Option Location}
    {session : Session}
    (tidy : session.IsTidy owner) :
    session.Shows session.disk :=
  ⟨⟨owner, tidy⟩, .refl tidy.orderly⟩

theorem Session.Shows.alike
    {session : Session}
    (shows : session.Shows disk) :
    Disk.Alike disk session.disk :=
  shows.grows.alike fun _ => id

/-- What grew by outputs only shows the same to documents. -/
theorem Ran.shows
    {owner : Option Location}
    {first last : Session}
    {html : List Piece}
    {started : List Compilation}
    (ran : Ran environment owner first html started last)
    (tidy : first.IsTidy owner)
    (grows : Grows Location.IsOutput disk first.disk)
    (met : ∀ compilation ∈ started, compilation.IsMet) :
    last.Shows disk :=
  ⟨⟨owner, ran.tidy⟩, grows.trans (ran.grows.mono fun _ touched =>
    touched.isOutput (fun source owns => (tidy.writes source owns).isDocument)
      met)⟩

/-- Opening the file of a page shows documents what was shown before. -/
theorem Compilation.shows_opened
    {compilation : Compilation}
    (shows : compilation.session.Shows disk)
    (met : compilation.IsMet)
    {opened : Session}
    {document : Document}
    (opens : compilation.opened? environment = some (opened, document)) :
    opened.Shows disk := by
  obtain ⟨⟨owner, tidy⟩, before⟩ := shows
  obtain ⟨openedTidy, grows, _⟩ := opened_tidy tidy met opens
  refine ⟨⟨_, openedTidy⟩, before.trans (grows.mono ?_)⟩
  rintro location (rfl | rfl)
  · exact Location.isOutput_stylesheet _
  · exact met.isDocument.isOutput_page

include alone

/-- A run shows documents what the disk showed before. -/
theorem Runs.shows
    {first last : Session}
    {html : List Piece}
    {started : List Compilation}
    (runs : Runs environment first html started last)
    (shows : first.Shows disk)
    (met : ∀ compilation ∈ started, compilation.IsMet)
    (fresh : AllFresh started) :
    last.Shows disk := by
  obtain ⟨⟨owner, tidy⟩, grows⟩ := shows
  exact (runs.ran alone tidy met fresh).shows tidy grows met

/-- The visits in a page see what the session before the page shows. -/
theorem Compilation.IsSound.shows
    {compilation : Compilation}
    (sound : compilation.IsSound environment)
    (shows : compilation.session.Shows disk)
    {visit : Visit}
    (member : visit ∈ compilation.visits environment) :
    visit.session.Shows disk := by
  obtain ⟨opened, document, written, started, opens, runs, among⟩ :=
    Compilation.comes member
  refine runs.shows alone (Compilation.shows_opened shows sound.met opens) ?_ ?_
  · exact fun other taken => sound.finds.isMet_of_mem (among taken)
  · exact fun other taken => allFresh_started _ _ (among taken)

/-- Every visit of a run sees what the visits that it starts with see. -/
theorem Occurs.shows
    {visits : List Visit}
    (finds : FindsDocuments environment visits)
    (start : ∀ visit ∈ visits, visit.session.Shows disk)
    {visit : Visit}
    (occurs : Occurs environment visits visit) :
    visit.session.Shows disk := by
  induction occurs with
  | start member => exact start _ member
  | @inside outer inner occurs member inductionHypothesis =>
      obtain ⟨written, started, runs, among⟩ := outer.course.found inner member
      refine runs.shows alone inductionHypothesis ?_ ?_
      · exact fun compilation taken => finds.isMet occurs (among taken)
      · exact fun compilation taken => outer.fresh_of_mem_started (among taken)
  | linked occurs starts member inductionHypothesis =>
      rw [← session_of_starts starts] at inductionHypothesis
      exact (finds.isSound occurs starts).shows alone inductionHypothesis member

end Shown

end Found

end Page
end NotePress
