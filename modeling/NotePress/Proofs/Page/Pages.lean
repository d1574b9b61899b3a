import NotePress.Proofs.Disk.Sights
import NotePress.Proofs.Page.Course
import NotePress.Proofs.Page.Links

/-!
# What pages hold

A run writes the page of every document that it begins, and stylesheets beside them.
As long as no document is begun twice, a page is not touched after it is closed: it
holds what its compilation wrote. What a page holds is never seen by documents.
-/

namespace NotePress
namespace Page

open Html (Piece)
open Disk (Grows)

/-- A machine that leaves disks alone. -/
def LeavesAlone (machine : Machine) : Prop :=
  ∀ disk index call, (machine disk index call).2 = disk

/-! ## The page that is open -/

/-- What the page that is open holds, with what is held back. -/
def Session.pageText (session : Session) : ByteArray :=
  match session.page with
  | none => .empty
  | some page =>
      match page.file with
      | none => page.pending
      | some index => page.text session.disk index

/-- A session whose open page is that of a document. -/
structure Session.Writes (session : Session) (source : Location) : Prop where
  isDocument : source.IsDocument
  begun : source ∈ session.compiled
  stored : ∃ page index, session.page = some page ∧
    session.disk.entryAt? source.page = some (.file index) ∧
    page.IsStored session.disk index

/-- A session on an orderly disk. The page that is open, if there is one, is that of
its owner. -/
structure Session.IsTidy (owner : Option Location) (session : Session) : Prop where
  orderly : session.disk.IsOrderly
  idle : owner = none → session.page = none
  writes : ∀ source, owner = some source → session.Writes source

theorem Session.isTidy_of_idle
    {session : Session}
    (orderly : session.disk.IsOrderly)
    (idle : session.page = none) :
    session.IsTidy none :=
  ⟨orderly, fun _ => idle, fun _ absent => absurd absent.symm (Option.some_ne_none _)⟩

theorem Session.pageText_of_stored
    {session : Session}
    {page : PageFile}
    {index : Nat}
    (opened : session.page = some page)
    (stored : page.IsStored session.disk index) :
    session.pageText = page.text session.disk index := by
  rw [pageText, opened]
  dsimp only
  rw [stored.file]

/-- After a flush the file of a page holds its text. -/
theorem Session.Writes.contentAt_flush
    {session : Session}
    {source : Location}
    (writes : session.Writes source) :
    session.flush.disk.contentAt source.page = ⟨session.pageText⟩ := by
  obtain ⟨page, index, opened, found, stored⟩ := writes.stored
  have entries : ∀ location, (page.flush session.disk).2.entryAt? location =
      session.disk.entryAt? location := by
    intro location
    rw [PageFile.flush]
    split
    · rfl
    · rw [stored.file]
      rfl
  have flushed : session.flush.disk = (page.flush session.disk).2 := by
    rw [Session.flush, opened]
  rw [flushed, Disk.contentAt, Disk.nodeAt?, entries, found,
    pageText_of_stored opened stored]
  exact Content.ext (PageFile.node_flush stored)

namespace Session.IsTidy

variable
  {owner : Option Location}
  {session next : Session}
  (tidy : session.IsTidy owner)
  {touched : Location → Prop}

include tidy

/-- Changes away from the page that is open. -/
theorem elsewhere
    (page : next.page = session.page)
    (kept : session.compiled ⊆ next.compiled)
    (grows : Grows touched session.disk next.disk)
    (apart : ∀ source, owner = some source → ¬touched source.page) :
    next.IsTidy owner ∧
      ∀ source, owner = some source → next.pageText = session.pageText := by
  have still : ∀ source, owner = some source →
      next.Writes source ∧ next.pageText = session.pageText := by
    intro source owns
    have writes := tidy.writes source owns
    obtain ⟨file, index, opened, found, stored⟩ := writes.stored
    have content := grows.contents found (apart source owns)
    have later := grows.stays found
    have kept' : file.IsStored next.disk index :=
      ⟨stored.file, grows.orderly.lt_size later, by rw [content, stored.written]⟩
    have openedNext : next.page = some file := page.trans opened
    refine ⟨⟨writes.isDocument, kept writes.begun, file, index, openedNext, later,
      kept'⟩, ?_⟩
    rw [pageText_of_stored openedNext kept', pageText_of_stored opened stored,
      PageFile.text, PageFile.text, content]
  exact ⟨⟨grows.orderly, fun none => page.trans (tidy.idle none),
    fun source owns => (still source owns).1⟩,
    fun source owns => (still source owns).2⟩

/-- Writing goes to the page that is open. -/
theorem writeUnits (pieces : List Piece) :
    (session.writeUnits (Html.units pieces)).IsTidy owner ∧
      Grows (fun location => ∃ source, owner = some source ∧
          location = source.page) session.disk
        (session.writeUnits (Html.units pieces)).disk ∧
      ∀ source, owner = some source →
        (session.writeUnits (Html.units pieces)).pageText =
          session.pageText ++ (Html.print pieces).toUTF8 := by
  cases owner with
  | none =>
      have same : session.writeUnits (Html.units pieces) = session := by
        rw [Session.writeUnits, tidy.idle rfl]
      rw [same]
      exact ⟨tidy, .refl tidy.orderly, fun _ absent =>
        absurd absent.symm (Option.some_ne_none _)⟩
  | some source =>
      have writes := tidy.writes source rfl
      obtain ⟨page, index, opened, found, stored⟩ := writes.stored
      have grows : Grows (· = source.page) session.disk
          (session.writeUnits (Html.units pieces)).disk := by
        refine Session.keeps_writeUnits
          (fun disk => Grows (· = source.page) session.disk disk) ?_
          (.refl tidy.orderly) _
        intro other same disk offset bytes so
        obtain rfl := Option.some.inj (opened.symm.trans same)
        rw [stored.file]
        exact so.trans (Disk.grows_changeFile so.orderly
          writes.isDocument.isOutput_page (so.stays found) _)
      obtain ⟨after, openedAfter, storedAfter, text⟩ :=
        Session.text_writeUnits opened stored (Html.units pieces)
      refine ⟨⟨grows.orderly, fun owned =>
    absurd owned (Option.some_ne_none _), ?_⟩, ?_, ?_⟩
      · intro other same
        obtain rfl := Option.some.inj same
        refine ⟨writes.isDocument, ?_, after, index, openedAfter,
          grows.stays found, storedAfter⟩
        rw [compiled_writeUnits]
        exact writes.begun
      · exact grows.mono fun location same => ⟨source, rfl, same⟩
      · intro _ _
        rw [pageText_of_stored openedAfter storedAfter,
          pageText_of_stored opened stored, text, Html.join_units]
        rfl

end Session.IsTidy

/-! ## What is begun in a run -/

/-- The documents of compilations. -/
def sourcesOf (started : List Compilation) : List Location :=
  started.map Compilation.source

/-- Compilations of documents that were not begun before. -/
def AllFresh (started : List Compilation) : Prop :=
  ∀ compilation ∈ started, compilation.source ∉ compilation.session.compiled

section Begun

variable
  {environment : Environment}
  {first last : Session}
  {html : List Piece}
  {started : List Compilation}

theorem compiled_begun_of_fresh
    {compilation : Compilation}
    (fresh : compilation.source ∉ compilation.session.compiled) :
    compilation.begun.compiled =
      compilation.session.compiled ++ [compilation.source] := by
  rw [Compilation.begun, Session.begin]
  exact if_neg fun begun => fresh (List.contains_iff_mem.mp begun)

theorem compiled_of_opened
    {compilation : Compilation}
    {opened : Session}
    {document : Document}
    (opens : compilation.opened? environment = some (opened, document)) :
    opened.compiled = compilation.begun.compiled := by
  obtain ⟨_, _, _, _, rfl⟩ := Compilation.of_opened opens
  exact Compilation.compiled_styled

/-- A run that begins no document twice adds the documents of its compilations, in
order. -/
theorem Runs.compiled
    (runs : Runs environment first html started last)
    (fresh : AllFresh started) :
    last.compiled = first.compiled ++ sourcesOf started ∧
      (sourcesOf started).Nodup ∧
      ∀ source ∈ sourcesOf started, source ∉ first.compiled := by
  induction runs with
  | done session =>
      exact ⟨(List.append_nil _).symm, List.nodup_nil, List.forall_mem_nil _⟩
  | write session pieces =>
      exact ⟨(compiled_writeUnits _ _).trans (List.append_nil _).symm,
        List.nodup_nil, List.forall_mem_nil _⟩
  | run session call =>
      exact ⟨(List.append_nil _).symm, List.nodup_nil, List.forall_mem_nil _⟩
  | @refuse compilation unopened =>
      have new := fresh compilation List.mem_cons_self
      obtain ⟨error, after, _, cases, results⟩ :=
        Compilation.result_of_unopened unopened
      have same : (compilation.result environment).2 = after :=
        congrArg Prod.snd (results compilation.depth)
      refine ⟨?_, List.nodup_singleton _, List.forall_mem_singleton.mpr new⟩
      rw [same]
      rcases cases with rfl | rfl
      · exact compiled_begun_of_fresh new
      · exact Compilation.compiled_styled.trans (compiled_begun_of_fresh new)
  | @page compilation opened last document started opens _ inductionHypothesis =>
      have new := fresh compilation List.mem_cons_self
      obtain ⟨whole, distinct, absent⟩ := inductionHypothesis fun other member =>
        fresh other (List.mem_cons_of_mem _ member)
      rw [compiled_of_opened opens, compiled_begun_of_fresh new] at whole absent
      refine ⟨?_, ?_, ?_⟩
      · dsimp only
        rw [Session.compiled_flush, whole, List.append_assoc]
        rfl
      · refine List.nodup_cons.mpr ⟨fun among => ?_, distinct⟩
        exact absent _ among (List.mem_append_right _ List.mem_cons_self)
      · refine List.forall_mem_cons.mpr ⟨new, fun source member begun => ?_⟩
        exact absent source member (List.mem_append_left _ begun)
  | andThen _ _ frontHypothesis backHypothesis =>
      obtain ⟨front, frontDistinct, frontNew⟩ := frontHypothesis
        fun other member => fresh other (List.mem_append_left _ member)
      obtain ⟨back, backDistinct, backNew⟩ := backHypothesis
        fun other member => fresh other (List.mem_append_right _ member)
      rw [front] at back backNew
      refine ⟨?_, ?_, ?_⟩
      · rw [back, sourcesOf, sourcesOf, sourcesOf, List.map_append,
          List.append_assoc]
      · rw [sourcesOf, List.map_append]
        refine frontDistinct.append backDistinct fun source old new => ?_
        exact backNew source new (List.mem_append_right _ old)
      · intro source member
        rw [sourcesOf, List.map_append] at member
        rcases List.mem_append.mp member with old | new
        · exact frontNew source old
        · exact fun begun => backNew source new (List.mem_append_left _ begun)

end Begun

/-! ## What a run does to a disk -/

/-- A compilation of a file. -/
def Compilation.IsFound (compilation : Compilation) : Prop :=
  ∃ index, compilation.session.disk.entryAt? compilation.source =
    some (.file index)

/-- A compilation of a file that has the extension of documents. -/
structure Compilation.IsMet (compilation : Compilation) : Prop where
  isDocument : compilation.source.IsDocument
  found : ∃ index, compilation.session.disk.entryAt? compilation.source =
    some (.file index)

/-- The places that a run may write to: the page that is open, the pages that are
opened in it, and the stylesheets beside them. -/
def Touched
    (environment : Environment)
    (owner : Option Location)
    (started : List Compilation)
    (location : Location) : Prop :=
  (∃ source, owner = some source ∧ location = source.page) ∨
    ∃ compilation ∈ started,
      location = compilation.source.stylesheet ∨
        location = compilation.source.page ∧
          (compilation.opened? environment).isSome = true

/-- What a run does: it writes the page that is open and makes the pages of its
compilations, which stay as they were written. -/
structure Ran
    (environment : Environment)
    (owner : Option Location)
    (first : Session)
    (html : List Piece)
    (started : List Compilation)
    (last : Session) : Prop where
  tidy : last.IsTidy owner
  grows : Grows (Touched environment owner started) first.disk last.disk
  text : ∀ source, owner = some source →
    last.pageText = first.pageText ++ (Html.print html).toUTF8
  pages : ∀ compilation ∈ started,
    (compilation.opened? environment).isSome = true →
    last.disk.contentAt compilation.source.page =
      .ofText (Html.print (compilation.html environment))

section Disks

variable
  {environment : Environment}
  {owner : Option Location}

theorem isDocument_of_unowned (source : Location) :
    (none : Option Location) = some source → source.IsDocument :=
  fun absent => absurd absent.symm (Option.some_ne_none _)

theorem Touched.isOutput
    {started : List Compilation}
    (owned : ∀ source, owner = some source → source.IsDocument)
    (met : ∀ compilation ∈ started, compilation.IsMet)
    {location : Location}
    (touched : Touched environment owner started location) :
    location.IsOutput := by
  rcases touched with
    ⟨source, owns, rfl⟩ | ⟨compilation, member, rfl | ⟨rfl, _⟩⟩
  · exact (owned source owns).isOutput_page
  · exact Location.isOutput_stylesheet _
  · exact (met compilation member).isDocument.isOutput_page

/-- The page of a document is touched only where the page of that document is
written. -/
theorem Touched.page
    {started : List Compilation}
    (owned : ∀ source, owner = some source → source.IsDocument)
    (met : ∀ compilation ∈ started, compilation.IsMet)
    {source : Location}
    (isDocument : source.IsDocument)
    (touched : Touched environment owner started source.page) :
    owner = some source ∨ ∃ compilation ∈ started,
      compilation.source = source ∧
        (compilation.opened? environment).isSome = true := by
  rcases touched with
    ⟨other, owns, same⟩ | ⟨compilation, member, same | ⟨same, opened⟩⟩
  · rw [isDocument.eq_of_page (owned other owns) same]
    exact .inl owns
  · exact absurd same (isDocument.page_ne_stylesheet _)
  · exact .inr ⟨compilation, member, ((met compilation member).isDocument.eq_of_page
      isDocument same.symm), opened⟩

namespace Compilation

theorem page_styled
    {compilation : Compilation} :
    (compilation.styled environment).page = compilation.session.page := by
  rw [styled, withStylesheet]
  split <;> rfl

section Files

variable
  {compilation : Compilation}
  (orderly : compilation.session.disk.IsOrderly)
  (isFound : compilation.IsFound)

include orderly isFound

theorem grows_styled :
    Grows (· = compilation.source.stylesheet) compilation.session.disk
      (compilation.styled environment).disk := by
  obtain ⟨index, found⟩ := isFound
  rw [styled, withStylesheet]
  split
  next disk writes =>
    exact Disk.grows_writeStylesheet orderly (orderly.isProper found).dropLast
      (orderly.parent found) writes
  next => exact .refl orderly

theorem isProper_source :
    compilation.source.IsProper ∧ compilation.source ≠ [] := by
  obtain ⟨index, found⟩ := isFound
  exact ⟨orderly.isProper found, Disk.ne_nil_of_file found⟩

/-- What is made from a file is an output by its name. -/
theorem isOutput_page : compilation.source.page.IsOutput := by
  obtain ⟨proper, nonempty⟩ := isProper_source orderly isFound
  exact proper.isOutput_page nonempty

/-- What it does to the disk to open the file of a page. -/
theorem creates_opened
    {opened : Session}
    {document : Document}
    (opens : compilation.opened? environment = some (opened, document)) :
    ∃ file disk index,
      opened = { compilation.styled environment with
        disk := disk
        page := some ⟨file, 0, .empty⟩ } ∧
      Disk.Creates (compilation.styled environment).disk
        (Location.path compilation.source).page compilation.source.page file disk
        index := by
  obtain ⟨_, file, disk, creates, rfl⟩ := of_opened opens
  have styles := @grows_styled environment _ orderly isFound
  have isOutput := isOutput_page orderly isFound
  obtain ⟨index, found⟩ := isFound
  have proper := orderly.isProper found
  have around := styles.stays (orderly.parent found)
  rw [← Location.dropLast_page] at around
  obtain ⟨made, creation⟩ := Disk.creates_of_createFile styles.orderly isOutput
    (proper.spells_page (Disk.ne_nil_of_file found)) around creates
  exact ⟨file, disk, made, rfl, creation⟩

end Files

variable
  {compilation : Compilation}
  (tidy : compilation.session.IsTidy owner)
  (met : compilation.IsMet)

include tidy met

/-- A compilation that is refused may put the stylesheet beside the page. -/
theorem ran_refused
    (unopened : compilation.opened? environment = none)
    (owned : ∀ source, owner = some source → source.IsDocument) :
    Ran environment owner compilation.session [] [compilation]
      (compilation.result environment).2 := by
  obtain ⟨error, after, _, cases, results⟩ := result_of_unopened unopened
  have same : (compilation.result environment).2 = after :=
    congrArg Prod.snd (results compilation.depth)
  have changes : after.page = compilation.session.page ∧
      compilation.session.compiled ⊆ after.compiled ∧
      Grows (· = compilation.source.stylesheet) compilation.session.disk
        after.disk := by
    rcases cases with rfl | rfl
    · exact ⟨rfl, subset_begun, .refl tidy.orderly⟩
    · refine ⟨page_styled, ?_, grows_styled tidy.orderly met.found⟩
      rw [compiled_styled]
      exact subset_begun
  obtain ⟨page, kept, grows⟩ := changes
  obtain ⟨later, text⟩ := tidy.elsewhere page kept grows fun source owns =>
    (owned source owns).page_ne_stylesheet _
  rw [same]
  refine ⟨later, grows.mono fun location beside => ?_, fun source owns => ?_, ?_⟩
  · exact .inr ⟨compilation, List.mem_cons_self, .inl beside⟩
  · rw [text source owns]
    exact ByteArray.append_empty.symm
  · refine List.forall_mem_singleton.mpr fun opened => ?_
    rw [unopened] at opened
    cases opened

/-- When the file of a page is open, it is empty and belongs to the page. -/
theorem opened_tidy
    {opened : Session}
    {document : Document}
    (opens : compilation.opened? environment = some (opened, document)) :
    opened.IsTidy (some compilation.source) ∧
      Grows
        (fun location => location = compilation.source.stylesheet ∨
          location = compilation.source.page)
        compilation.session.disk opened.disk ∧
      opened.pageText = .empty := by
  obtain ⟨file, disk, made, rfl, creation⟩ := creates_opened tidy.orderly met.found opens
  have styles := @grows_styled environment _ tidy.orderly met.found
  have grows := creation.grows
  have stored : PageFile.IsStored ⟨file, 0, .empty⟩ disk made := by
    refine ⟨creation.file, grows.orderly.lt_size creation.found, ?_⟩
    rw [creation.empty]
    rfl
  refine ⟨⟨grows.orderly, fun owned =>
    absurd owned (Option.some_ne_none _), ?_⟩, ?_, ?_⟩
  · intro source same
    obtain rfl := Option.some.inj same
    refine ⟨met.isDocument, ?_, _, made, rfl, creation.found, stored⟩
    dsimp only
    rw [compiled_styled]
    exact mem_begun
  · exact (styles.mono fun _ => .inl).trans (grows.mono fun _ => .inr)
  · rw [Session.pageText_of_stored rfl stored, PageFile.text]
    dsimp only
    rw [creation.empty]
    rfl

/-- The path of a page leads to it. -/
theorem locate_opened
    {opened : Session}
    {document : Document}
    (opens : compilation.opened? environment = some (opened, document)) :
    opened.disk.locate (Location.path compilation.source).page =
      .ok compilation.source.page := by
  obtain ⟨file, disk, made, rfl, creation⟩ := creates_opened tidy.orderly met.found opens
  refine (creation.grows.alike ?_).locate creation.located
  rintro location rfl
  exact met.isDocument.isOutput_page

/-- A compilation that opens the file of its page makes the page. -/
theorem ran_opened
    {opened last : Session}
    {document : Document}
    {started : List Compilation}
    (owned : ∀ source, owner = some source → source.IsDocument)
    (opens : compilation.opened? environment = some (opened, document))
    (inner : Ran environment (some compilation.source) opened
      (compilation.html environment) started last)
    (others : ∀ other ∈ started, other.IsMet)
    (distinct : compilation.source ∉ sourcesOf started)
    (apart : ∀ source, owner = some source →
      source ≠ compilation.source ∧ source ∉ sourcesOf started)
    (kept : compilation.session.compiled ⊆ last.compiled) :
    Ran environment owner compilation.session [] (compilation :: started)
      { last.flush with page := compilation.session.page } := by
  obtain ⟨openedTidy, opening, openedText⟩ := opened_tidy tidy met opens
  have isOpened : (compilation.opened? environment).isSome = true := by
    rw [opens]
    rfl
  obtain ⟨page, index, isOpen, found, stored⟩ :=
    (inner.tidy.writes compilation.source rfl).stored
  have isOutput := met.isDocument.isOutput_page
  have flushes : Grows (· = compilation.source.page) last.disk
      last.flush.disk := by
    refine Session.keeps_flush
      (fun disk => Grows (· = compilation.source.page) last.disk disk) ?_
      (.refl inner.grows.orderly)
    intro other same disk offset bytes so
    obtain rfl := Option.some.inj (isOpen.symm.trans same)
    rw [stored.file]
    exact so.trans
      (Disk.grows_changeFile so.orderly isOutput (so.stays found) _)
  -- The disk changes three times: the file is made, the run in the page writes, and
  -- what is held back is written at the end.
  have whole : Grows (Touched environment none (compilation :: started))
      compilation.session.disk last.flush.disk := by
    refine ((opening.mono ?_).trans (inner.grows.mono ?_)).trans
      (flushes.mono ?_)
    · exact fun location beside => .inr ⟨compilation, List.mem_cons_self,
        beside.imp_right fun same => ⟨same, isOpened⟩⟩
    · rintro location (⟨source, same, rfl⟩ | ⟨other, member, among⟩)
      · obtain rfl := Option.some.inj same
        exact .inr ⟨compilation, List.mem_cons_self, .inr ⟨rfl, isOpened⟩⟩
      · exact .inr ⟨other, List.mem_cons_of_mem _ member, among⟩
    · exact fun location same => .inr ⟨compilation, List.mem_cons_self,
        .inr ⟨same, isOpened⟩⟩
  have untouched : ∀ source, owner = some source →
      ¬Touched environment none (compilation :: started) source.page := by
    intro source owns touched
    rcases touched.page isDocument_of_unowned
      (List.forall_mem_cons.mpr ⟨met, others⟩) (owned source owns) with
      none | ⟨other, member, same, _⟩
    · cases none
    · rcases List.mem_cons.mp member with rfl | later
      · exact (apart source owns).1 same.symm
      · exact (apart source owns).2 (List.mem_map.mpr ⟨other, later, same⟩)
  have keeps : compilation.session.compiled ⊆ last.flush.compiled := by
    rw [Session.compiled_flush]
    exact kept
  obtain ⟨after, text⟩ := @Session.IsTidy.elsewhere owner compilation.session
    { last.flush with page := compilation.session.page } tidy _ rfl keeps whole
    untouched
  refine ⟨after, whole.mono ?_, fun source owns => ?_,
    List.forall_mem_cons.mpr ⟨fun _ => ?_, fun other member opens => ?_⟩⟩
  · exact fun location touched => .inr (touched.resolve_left
      fun ⟨_, absent, _⟩ => absurd absent.symm (Option.some_ne_none _))
  · rw [text source owns]
    exact ByteArray.append_empty.symm
  · have written := inner.text compilation.source rfl
    rw [openedText, ByteArray.empty_append] at written
    rw [(inner.tidy.writes compilation.source rfl).contentAt_flush, written]
    rfl
  · have different : ¬other.source.page = compilation.source.page := by
      intro same
      refine distinct (List.mem_map.mpr ⟨other, member, ?_⟩)
      exact (others other member).isDocument.eq_of_page met.isDocument same
    rw [flushes.contentAt different]
    exact inner.pages other member opens

end Compilation

/-- A run that begins no document twice does what its compilations do. -/
theorem Runs.ran
    (alone : LeavesAlone environment.machine)
    {first last : Session}
    {html : List Piece}
    {started : List Compilation}
    (runs : Runs environment first html started last)
    (tidy : first.IsTidy owner)
    (met : ∀ compilation ∈ started, compilation.IsMet)
    (fresh : AllFresh started) :
    Ran environment owner first html started last := by
  -- The page that is open changes when a run enters another page, so the induction goes
  -- over all owners.
  induction runs generalizing owner with
  | done session =>
      exact ⟨tidy, .refl tidy.orderly, fun _ _ => ByteArray.append_empty.symm,
        List.forall_mem_nil _⟩
  | write session pieces =>
      obtain ⟨after, grows, text⟩ := tidy.writeUnits pieces
      exact ⟨after, grows.mono fun _ => .inl, text, List.forall_mem_nil _⟩
  | run session call =>
      have same : (runCode environment call session).2.disk = session.disk :=
        alone _ _ _
      have grows : Grows (fun _ => False) session.disk
          (runCode environment call session).2.disk := by
        rw [same]
        exact .refl tidy.orderly
      obtain ⟨after, text⟩ := @Session.IsTidy.elsewhere owner session
        (runCode environment call session).2 tidy _ rfl (List.Subset.refl _) grows
        fun _ _ => id
      refine ⟨after, grows.mono fun _ => False.elim, fun source owns => ?_,
        List.forall_mem_nil _⟩
      rw [text source owns]
      exact ByteArray.append_empty.symm
  | refuse unopened =>
      exact Compilation.ran_refused tidy (met _ List.mem_cons_self) unopened
        fun source owns => (tidy.writes source owns).isDocument
  | @page compilation opened last document started opens inner inductionHypothesis =>
      have compilationMet := met compilation List.mem_cons_self
      have others : ∀ other ∈ started, other.IsMet :=
        fun other member => met other (List.mem_cons_of_mem _ member)
      have othersFresh : AllFresh started :=
        fun other member => fresh other (List.mem_cons_of_mem _ member)
      obtain ⟨openedTidy, _, _⟩ :=
        Compilation.opened_tidy tidy compilationMet opens
      obtain ⟨whole, _, new⟩ := inner.compiled othersFresh
      rw [compiled_of_opened opens] at whole new
      -- The document of the page counts as compiled from its beginning, so nothing that
      -- is started in the page makes the same page.
      refine Compilation.ran_opened tidy compilationMet
        (fun source owns => (tidy.writes source owns).isDocument) opens
        (inductionHypothesis openedTidy others othersFresh) others
        (fun among => new _ among Compilation.mem_begun) ?_ ?_
      · intro source owns
        have begun := (tidy.writes source owns).begun
        refine ⟨?_, fun among => new source among
          (Compilation.subset_begun begun)⟩
        rintro rfl
        exact fresh compilation List.mem_cons_self begun
      · rw [whole]
        exact fun source begun =>
          List.mem_append_left _ (Compilation.subset_begun begun)
  | @andThen first middle last html later started others front back
      frontHypothesis backHypothesis =>
      have frontMet : ∀ compilation ∈ started, compilation.IsMet :=
        fun other member => met other (List.mem_append_left _ member)
      have backMet : ∀ compilation ∈ others, compilation.IsMet :=
        fun other member => met other (List.mem_append_right _ member)
      have frontRan := frontHypothesis tidy frontMet
        fun other member => fresh other (List.mem_append_left _ member)
      have backRan := backHypothesis frontRan.tidy backMet
        fun other member => fresh other (List.mem_append_right _ member)
      -- A page of the first part stays as it is, since the second part makes others.
      have distinct := ((front.andThen back).compiled fresh).2.1
      have new := ((front.andThen back).compiled fresh).2.2
      rw [sourcesOf, List.map_append] at distinct
      refine ⟨backRan.tidy, (frontRan.grows.mono ?_).trans
        (backRan.grows.mono ?_), fun source owns => ?_, ?_⟩
      · exact fun location touched => touched.imp_right
          fun ⟨other, member, among⟩ =>
            ⟨other, List.mem_append_left _ member, among⟩
      · exact fun location touched => touched.imp_right
          fun ⟨other, member, among⟩ =>
            ⟨other, List.mem_append_right _ member, among⟩
      · rw [backRan.text source owns, frontRan.text source owns,
          Html.print_append, ByteArray.append_assoc]
        exact congrArg _ String.toByteArray_append.symm
      · intro compilation member opens
        rcases List.mem_append.mp member with old | late
        · have isDocument := (met compilation member).isDocument
          rw [backRan.grows.contentAt ?_]
          · exact frontRan.pages compilation old opens
          · intro touched
            rcases touched.page (fun source owns =>
                (tidy.writes source owns).isDocument) backMet isDocument with
              owns | ⟨other, among, same, _⟩
            · exact new compilation.source (List.mem_map_of_mem member)
                (tidy.writes _ owns).begun
            · exact List.disjoint_of_nodup_append distinct
                (List.mem_map_of_mem old) (List.mem_map.mpr ⟨other, among, same⟩)
        · exact backRan.pages compilation late opens

/-! ## What a compilation does to a disk -/

theorem Visit.fresh_of_mem_started
    {visit : Visit}
    {compilation : Compilation}
    (member : compilation ∈ visit.started environment) :
    compilation.source ∉ compilation.session.compiled := by
  obtain ⟨found, _, starts⟩ := occurs_of_mem_started member
  obtain ⟨target, title, start⟩ := startsBy_of_starts starts
  rw [start.session]
  exact start.fresh

theorem allFresh_started (visits : List Visit) :
    AllFresh (visits.flatMap (Visit.started environment)) := by
  intro compilation member
  obtain ⟨visit, _, within⟩ := List.mem_flatMap.mp member
  exact visit.fresh_of_mem_started within

namespace Compilation

variable (compilation : Compilation)

/-- The compilations that are started in the page of a compilation. -/
def within (environment : Environment) : List Compilation :=
  (compilation.visits environment).flatMap (Visit.started environment)

theorem allFresh_within : AllFresh (compilation.within environment) :=
  allFresh_started _

variable {compilation}

theorem within_of_unopened
    (unopened : compilation.opened? environment = none) :
    compilation.within environment = [] := by
  rw [within, visits, unopened]
  rfl

/-- The run in a page that is open. -/
theorem runs_of_opened
    {opened : Session}
    {document : Document}
    (opens : compilation.opened? environment = some (opened, document)) :
    ∃ last, Runs environment opened (compilation.html environment)
        (compilation.within environment) last ∧
      (compilation.result environment).2 =
        { last.flush with page := compilation.session.page } :=
  ⟨_, (course opens fun visit _ => visit.course).runs,
    congrArg Prod.snd (result_of_opened opens)⟩

/-- A compilation adds its document, if it was not begun before, and the documents of
the compilations in its page, none of which was begun before. -/
theorem compiled_result :
    (compilation.result environment).2.compiled =
      compilation.begun.compiled ++ sourcesOf (compilation.within environment) ∧
    (sourcesOf (compilation.within environment)).Nodup ∧
    ∀ source ∈ sourcesOf (compilation.within environment),
      source ∉ compilation.begun.compiled := by
  cases opens : compilation.opened? environment with
  | none =>
      rw [within_of_unopened opens]
      obtain ⟨error, after, _, cases, results⟩ := result_of_unopened opens
      have same : (compilation.result environment).2 = after :=
        congrArg Prod.snd (results compilation.depth)
      refine ⟨?_, List.nodup_nil, List.forall_mem_nil _⟩
      rw [same, sourcesOf, List.map_nil, List.append_nil]
      rcases cases with rfl | rfl
      · rfl
      · exact compiled_styled
  | some found =>
      obtain ⟨opened, document⟩ := found
      obtain ⟨last, runs, same⟩ := runs_of_opened opens
      obtain ⟨whole, distinct, new⟩ := runs.compiled compilation.allFresh_within
      rw [compiled_of_opened opens] at whole new
      refine ⟨?_, distinct, new⟩
      rw [same, ← whole]
      exact Session.compiled_flush last

/-- A compilation that is not started in a page makes pages that stay as they were
written. -/
theorem ran
    (alone : LeavesAlone environment.machine)
    (tidy : compilation.session.IsTidy none)
    (met : ∀ other ∈ compilation.started environment, other.IsMet) :
    Ran environment none compilation.session []
      (compilation.started environment) (compilation.result environment).2 := by
  have own : compilation.IsMet := met compilation List.mem_cons_self
  cases opens : compilation.opened? environment with
  | none =>
      have started : compilation.started environment = [compilation] :=
        congrArg _ (within_of_unopened opens)
      rw [started]
      exact ran_refused tidy own opens isDocument_of_unowned
  | some found =>
      obtain ⟨opened, document⟩ := found
      obtain ⟨last, runs, same⟩ := runs_of_opened opens
      obtain ⟨whole, _, new⟩ := runs.compiled compilation.allFresh_within
      rw [compiled_of_opened opens] at whole new
      have others : ∀ other ∈ compilation.within environment, other.IsMet :=
        fun other member => met other (List.mem_cons_of_mem _ member)
      rw [same]
      refine ran_opened tidy own isDocument_of_unowned opens
        (runs.ran alone (opened_tidy tidy own opens).1 others
          compilation.allFresh_within) others
        (fun among => new _ among mem_begun) (fun _ absent =>
          absurd absent.symm (Option.some_ne_none _)) ?_
      rw [whole]
      exact fun source begun =>
        List.mem_append_left _ (subset_begun begun)

end Compilation

end Disks

end Page
end NotePress
