import NotePress.Proofs.Disk.Folders
import NotePress.Proofs.Disk.Standing
import NotePress.Proofs.Page.Coverage
import NotePress.Proofs.Page.Failures
import NotePress.Proofs.Page.FolderIndex
import NotePress.Proofs.Text.ByteOrder

/-!
# Links to the folders around

The directive for the folders around stands for a document with a heading for each of
them, which holds a link to the index document of the folder. A link that is completed
writes the name of the folder and the page of its index document; a heading and the
listing as a whole put their tags around that.

A listing fails when one of its links does. Nothing that is done while pages are made
removes a directory or a file, except for what a program may do. When programs do not,
the document of a link is still found when its turn comes, and only making its page can
fail.
-/

namespace NotePress
namespace Page

open Html (Piece)
open Document (Block)
open Disk (Retains HoldsFile Takes)
open Path (IsProper)
open Source (indexLink indexDocument)

/-! ## Runs in which nothing is removed -/

/-- A machine that leaves the directories and files of disks where they are. -/
def Retentive (machine : Machine) : Prop :=
  ∀ disk index call, Retains disk (machine disk index call).2

section Retained

variable
  {environment : Environment}
  (retentive : Retentive environment.machine)

include retentive

theorem Change.retains
    {begins : Location → Prop}
    {before after : Session}
    (change : Change environment begins before after) :
    Retains before.disk after.disk := by
  cases change with
  | write units =>
      exact Session.keeps_writeUnits (Retains before.disk)
        (fun page _ _ _ _ retains => retains.changeFile page.file _) (.refl _) units
  | run call => exact retentive _ _ _
  | begin => exact .refl _
  | style directory =>
      rw [withStylesheet]
      split
      next disk writes =>
        have writing : Disk.Accrues (fun _ => True) before.disk disk :=
          Disk.accrues_writeStylesheet trivial writes
        exact writing.retains
      next => exact .refl _
  | @create path file disk creates =>
      have creating : Disk.Accrues (fun _ => True) before.disk disk :=
        (Disk.accrues_createFile trivial creates).1
      exact creating.retains
  | close page =>
      exact Session.keeps_flush (Retains before.disk)
        (fun page _ _ _ _ retains => retains.changeFile page.file _) (.refl _)

/-- What stands when a run starts stands when it ends. -/
theorem Runs.retains
    {first last : Session}
    {html : List Piece}
    {started : List Compilation}
    (runs : Runs environment first html started last) :
    Retains first.disk last.disk := by
  have advances : Advances environment (fun _ => True) first last :=
    runs.advances fun _ _ => trivial
  have step (before after : Session)
      (change : Change environment (fun _ => True) before after)
      (retains : Retains first.disk before.disk) :
      Retains first.disk after.disk :=
    retains.trans (change.retains retentive)
  exact advances.keeps step (.refl _)

/-- What stands when a visit starts stands when a visit inside it starts. -/
theorem Visit.retains_inside
    {visit inner : Visit}
    (member : inner ∈ visit.inside environment) :
    Retains visit.session.disk inner.session.disk := by
  obtain ⟨_, _, runs, _⟩ := visit.course.found inner member
  exact runs.retains retentive

end Retained

/-! ## The links -/

section Links

variable
  {environment : Environment}
  {context : Context}
  {folder index : String}

theorem directive_indexLink :
    Directive.ofHashtag? (indexLink index folder) =
      some (.link (folder ++ "/" ++ index) folder) := by
  have nonempty : ¬(folder ++ "/" ++ index).isEmpty = true := by
    simp [String.isEmpty_iff, String.append_eq_empty_iff]
  rw [indexLink, Directive.ofHashtag?]
  exact if_neg nonempty

variable
  (isFolder : IsProper folder.toList)
  (isIndex : IsProper index.toList)
  (extension : Path.extensionOf? index.toList = some Target.sourceExtension.toList)

include isFolder isIndex extension

/-- What a link to an index document comes to. -/
theorem renderHashtag_indexLink
    (depth : Nat)
    (session : Session) :
    renderHashtag environment (depth + 1) context (indexLink index folder) session =
      match locateSource session.disk
          (context.base.resolve (folder ++ "/" ++ index)) with
      | .error error => .fail error session
      | .ok source =>
          if session.compiled.contains source then
            .emit (linkPieces (Target.page (folder ++ "/" ++ index)) folder) session
          else
            linkOutcome (linkPieces (Target.page (folder ++ "/" ++ index)) folder)
              ((Compilation.mk depth source session).result environment) := by
  rw [renderHashtag, directive_indexLink]
  dsimp only
  rw [if_pos (Target.isSource_names isFolder isIndex extension)]
  cases locateSource session.disk (context.base.resolve (folder ++ "/" ++ index)) with
  | error error => rfl
  | ok source => rfl

/-- The pieces of the heading of a folder. -/
def headingPieces (index folder : String) : List Piece :=
  [.opening (.heading 2) []] ++
    linkPieces (folder ++ "/" ++ String.ofList (Path.pageName index.toList)) folder ++
    [.closing (.heading 2)]

/-- A link that is completed writes its pieces. -/
theorem html_indexLink
    {depth : Nat}
    {session : Session}
    (complete : (renderHashtag environment (depth + 1) context
      (indexLink index folder) session).failure = none) :
    (renderHashtag environment (depth + 1) context (indexLink index folder)
      session).html =
        linkPieces (folder ++ "/" ++ String.ofList (Path.pageName index.toList))
          folder := by
  rw [renderHashtag_indexLink isFolder isIndex extension,
    Target.page_names isFolder isIndex] at complete ⊢
  cases located : locateSource session.disk
      (context.base.resolve (folder ++ "/" ++ index)) with
  | error error =>
      rw [located] at complete
      cases complete
  | ok source =>
      rw [located] at complete
      dsimp only at complete ⊢
      by_cases begun : session.compiled.contains source = true
      · rw [if_pos begun]
        rfl
      · rw [if_neg begun] at complete ⊢
        generalize Compilation.result _ _ = result at complete ⊢
        obtain ⟨answer, after⟩ := result
        cases answer with
        | error error => cases complete
        | ok path => rfl

/-- A link whose document is located fails for what making its page fails for. -/
theorem result_of_indexLink
    {depth : Nat}
    {session : Session}
    {source : Location}
    (located : locateSource session.disk
      (context.base.resolve (folder ++ "/" ++ index)) = .ok source)
    {error : RenderError}
    (fails : (renderHashtag environment (depth + 1) context
      (indexLink index folder) session).failure = some error) :
    (Compilation.result environment ⟨depth, source, session⟩).1 = .error error := by
  rw [renderHashtag_indexLink isFolder isIndex extension, located] at fails
  dsimp only at fails
  split at fails
  next => cases fails
  next =>
    generalize Compilation.result environment ⟨depth, source, session⟩ = result
      at fails
    obtain ⟨answer, after⟩ := result
    cases answer with
    | error found =>
        cases fails
        rfl
    | ok path => cases fails

/-- A heading that is completed writes its pieces. -/
theorem html_indexHeading
    {depth : Nat}
    {session : Session}
    (complete : (renderBlock environment (renderHashtag environment (depth + 1) context)
      (.heading 2 [.hashtag (indexLink index folder)]) session).failure = none) :
    (renderBlock environment (renderHashtag environment (depth + 1) context)
      (.heading 2 [.hashtag (indexLink index folder)]) session).html =
        headingPieces index folder := by
  rw [renderBlock, if_pos (by decide)] at complete ⊢
  rw [html_wrapped_of_complete complete]
  have within := complete_of_wrapped complete
  rw [renderBlocks_eq_inTurn] at within ⊢
  have writes (block : Block)
      (member : block ∈ [.hashtag (indexLink index folder)])
      (found : Session)
      (done : (renderBlock environment (renderHashtag environment (depth + 1) context)
        block found).failure = none) :
      (renderBlock environment (renderHashtag environment (depth + 1) context)
        block found).html =
          linkPieces (folder ++ "/" ++ String.ofList (Path.pageName index.toList))
            folder := by
    rw [List.mem_singleton.mp member, renderBlock] at done ⊢
    exact html_indexLink isFolder isIndex extension done
  rw [html_inTurn_of_complete writes within, List.flatMap_cons, List.flatMap_nil,
    List.append_nil]
  rfl

end Links

/-! ## All folders -/

/-- The directive that lists the folders around. -/
def autoNested : Document.Hashtag :=
  ⟨"AutoNested", []⟩

/-- What is written for a link. -/
def writtenLink (target label : String) : String :=
  "<a href=\"" ++ Html.escapeQuoted target ++ "\">" ++ Html.escape label ++ "</a>"

/-- What is written for a folder. -/
def writtenFolder (index folder : String) : String :=
  "<h2>" ++
    writtenLink (folder ++ "/" ++ String.ofList (Path.stemOf index.toList) ++ ".html")
      folder ++
    "</h2>"

/-- What is written for folders, which is nothing when there are none. -/
def writtenFolders (index : String) (folders : List String) : String :=
  if folders.isEmpty then ""
  else "<p>" ++ String.join (folders.map (writtenFolder index)) ++ "</p>\n\n"

theorem print_linkPieces (target label : String) :
    Html.print (linkPieces target label) = writtenLink target label := by
  apply String.toList_injective
  simp [writtenLink, linkPieces, Html.print, Piece.print, Piece.fragments,
    Html.Tag.name, Html.Attribute.fragments, Html.Fragment.text]

theorem print_headingPieces (index folder : String) :
    Html.print (headingPieces index folder) = writtenFolder index folder := by
  have page : String.ofList (Path.pageName index.toList) =
      String.ofList (Path.stemOf index.toList) ++ ".html" :=
    String.ofList_append
  have opening : Html.print [.opening (.heading 2) []] = "<h2>" := by decide
  have closing : Html.print [.closing (.heading 2)] = "</h2>" := by decide
  rw [headingPieces, Html.print_append, Html.print_append, print_linkPieces, opening,
    closing, page, ← String.append_assoc, writtenFolder]

/-- The pieces of the headings of folders. -/
def folderPieces (index : String) (folders : List String) : List Piece :=
  if folders.isEmpty then []
  else
    [.opening .paragraph []] ++ folders.flatMap (headingPieces index) ++
      [.closing .paragraph, .constant "\n\n"]

theorem print_folderPieces (index : String) (folders : List String) :
    Html.print (folderPieces index folders) = writtenFolders index folders := by
  have headings : Html.print (folders.flatMap (headingPieces index)) =
      String.join (folders.map (writtenFolder index)) := by
    induction folders with
    | nil => rfl
    | cons first others inductionHypothesis =>
        rw [List.flatMap_cons, Html.print_append, inductionHypothesis,
          print_headingPieces, List.map_cons, String.join_cons]
  have opening : Html.print [.opening .paragraph []] = "<p>" := by decide
  have closing : Html.print [.closing .paragraph, .constant "\n\n"] =
      "</p>\n\n" := by decide
  rw [folderPieces, writtenFolders]
  split
  · rfl
  · rw [Html.print_append, Html.print_append, headings, opening, closing]

/-- The headings of folders, when they are completed. -/
theorem html_indexParagraph
    {environment : Environment}
    {context : Context}
    {index : String}
    {folders : List String}
    (areFolders : ∀ folder ∈ folders, IsProper folder.toList)
    (isIndex : IsProper index.toList)
    (extension :
      Path.extensionOf? index.toList = some Target.sourceExtension.toList)
    {depth : Nat}
    {session : Session}
    (complete : (renderParagraph environment
      (renderHashtag environment (depth + 1) context)
      (folders.map fun folder => .heading 2 [.hashtag (indexLink index folder)])
      session).failure = none) :
    (renderParagraph environment (renderHashtag environment (depth + 1) context)
      (folders.map fun folder => .heading 2 [.hashtag (indexLink index folder)])
      session).html = folderPieces index folders := by
  rw [renderParagraph, List.isEmpty_map] at complete ⊢
  rw [folderPieces]
  split at complete
  next nothing =>
    rw [if_pos nothing, if_pos nothing]
    rfl
  next some =>
    rw [if_neg some, if_neg some, html_wrapped_of_complete complete]
    have within := complete_of_wrapped complete
    rw [renderBlocks_eq_inTurn, inTurn_map] at within ⊢
    rw [html_inTurn_of_complete (fun folder member found done =>
      html_indexHeading (areFolders folder member) isIndex extension done) within]

/-- The heading of a hashtag fails for what the hashtag fails for. -/
theorem exists_found_of_heading
    {environment : Environment}
    (retentive : Retentive environment.machine)
    {site : Site}
    {hashtag : Document.Hashtag}
    {error : RenderError}
    (fails : (Visit.outcome environment ⟨site, .heading 2 [.hashtag hashtag]⟩).failure =
      some error) :
    ∃ found, Retains site.session.disk found.disk ∧
      (renderHashtag environment site.depth site.context hashtag found).failure =
        some error := by
  have contains : Visit.Contains environment ⟨site, .heading 2 [.hashtag hashtag]⟩ :=
    show 1 ≤ 2 ∧ 2 ≤ 6 by decide
  obtain ⟨inner, inside, failed⟩ := (Visit.failsAs_inside contains error).mp fails
  have retains := Visit.retains_inside retentive inside
  rw [Visit.inside_heading (by decide)] at inside
  obtain ⟨block, isHashtag, found, rfl⟩ := Site.mem_blocks inside
  rw [List.mem_singleton.mp isHashtag, Visit.outcome, renderBlock] at failed
  exact ⟨found, retains, failed⟩

section Listing

variable
  {environment : Environment}
  {context : Context}
  {session : Session}
  {folders : List String}
  (lists : Source.indexedFolders session.disk context.base
    environment.options.indexFileName = .ok folders)

include lists

theorem brings_autoNested :
    transcluded? environment context autoNested session =
      some (context, indexDocument folders environment.options.indexFileName) := by
  have directive : Directive.ofHashtag? autoNested = some .autoNested := rfl
  rw [transcluded?, directive]
  dsimp only
  rw [lists]

/-- A listing fails for what one of its links fails for, and what stood at its start
stands when that link is taken up. -/
theorem exists_link_of_failure
    (retentive : Retentive environment.machine)
    {depth : Nat}
    {error : RenderError}
    (fails : (renderHashtag environment (depth + 2) context autoNested
      session).failure = some error) :
    ∃ folder ∈ folders, ∃ found, Retains session.disk found.disk ∧
      (renderHashtag environment (depth + 1) context
        (indexLink environment.options.indexFileName folder) found).failure =
          some error := by
  have brings := brings_autoNested lists
  let listing : Visit := ⟨⟨depth + 2, context, [], session⟩, .hashtag autoNested⟩
  have contains : listing.Contains environment := by
    rintro (shallow | alone)
    · cases shallow
    · rw [brings] at alone
      cases alone
  have failed : (listing.outcome environment).failure = some error := by
    rw [Visit.outcome, renderBlock]
    exact fails
  obtain ⟨heading, inListing, failed⟩ := (Visit.failsAs_inside contains error).mp failed
  have retains := Visit.retains_inside retentive inListing
  rw [Visit.inside_transcluded rfl brings] at inListing
  obtain ⟨paragraph, isParagraph, block, isBlock, middle, rfl⟩ :=
    Site.mem_paragraphs inListing
  rw [List.mem_singleton.mp isParagraph] at isBlock
  obtain ⟨folder, isFolder, rfl⟩ := List.mem_map.mp isBlock
  obtain ⟨found, stillRetains, failed⟩ := exists_found_of_heading retentive failed
  exact ⟨folder, isFolder, found, retains.trans stillRetains, failed⟩

variable
  (areFolders : ∀ folder ∈ folders, IsProper folder.toList)
  (isIndex : IsProper environment.options.indexFileName.toList)
  (extension : Path.extensionOf? environment.options.indexFileName.toList =
    some Target.sourceExtension.toList)

include areFolders isIndex extension

/-- A listing that is completed writes the folders. -/
theorem print_autoNested
    {depth : Nat}
    (complete : (renderHashtag environment (depth + 2) context autoNested
      session).failure = none) :
    Html.print (renderHashtag environment (depth + 2) context autoNested
      session).html =
        writtenFolders environment.options.indexFileName folders := by
  rw [renderHashtag_of_transcluded (brings_autoNested lists),
    renderParagraphs_eq_inTurn] at complete ⊢
  have writes (paragraph : List Block)
      (member : paragraph ∈ indexDocument folders environment.options.indexFileName)
      (found : Session) (done : (renderParagraph environment
        (renderHashtag environment (depth + 1) context) paragraph found).failure =
          none) :
      (renderParagraph environment (renderHashtag environment (depth + 1) context)
        paragraph found).html =
          folderPieces environment.options.indexFileName folders := by
    rw [List.mem_singleton.mp member] at done ⊢
    exact html_indexParagraph areFolders isIndex extension done
  rw [html_inTurn_of_complete writes complete, indexDocument, List.flatMap_cons,
    List.flatMap_nil, List.append_nil, print_folderPieces]

end Listing

/-- On a simple disk the directive lists the folders that hold an index document, once
each and in the order of their bytes. It writes a heading with a link for each of them,
and nothing when there are none, in whatever order the disk has its entries. Each link
is well formed. Where nothing is removed by programs, a listing fails only for what
making the page of an index document that stands fails for.

The two paths to an index document are not built alike: behind a base that ends with a
slash the one that is linked to has another slash, so it can be too long when the one
that was looked at is not. -/
theorem autoNested_exact
    {environment : Environment}
    {context : Context}
    {session : Session}
    {location : Location}
    (simple : session.disk.IsSimple)
    (located : session.disk.locate context.base = .ok location)
    (isDirectory : session.disk.entryAt? location = some .directory)
    (isIndex : IsProper environment.options.indexFileName.toList)
    (extension : Path.extensionOf? environment.options.indexFileName.toList =
      some Target.sourceExtension.toList)
    (depth : Nat) :
    let index := environment.options.indexFileName
    let outcome := renderHashtag environment (depth + 2) context autoNested
    ∃ folders,
      folders.Pairwise (fun first second =>
        Text.bytesOf first < Text.bytesOf second) ∧
      (∀ folder, folder ∈ folders ↔
        HoldsFile session.disk location folder index ∧
          Takes ((context.base.join ⟨folder⟩).join ⟨index⟩)) ∧
      (∀ other : Session, other.disk.entries.Perm session.disk.entries →
        other.disk.workingDirectory = session.disk.workingDirectory →
        Source.indexedFolders other.disk context.base index = .ok folders ∧
          ((outcome other).failure = none →
            Html.print (outcome other).html = writtenFolders index folders)) ∧
      (∀ folder ∈ folders, Directive.ofHashtag? (indexLink index folder) =
        some (.link (folder ++ "/" ++ index) folder)) ∧
      (Retentive environment.machine →
        (context.base.text.toList.getLast? = some '/' →
          ∀ folder ∈ folders, Takes (context.base.resolve (folder ++ "/" ++ index))) →
        ∀ error, (outcome session).failure = some error →
          ∃ folder ∈ folders, ∃ found, Retains session.disk found.disk ∧
            (Compilation.result environment
              ⟨depth, location ++ [folder] ++ [index], found⟩).1 = .error error) := by
  intro index outcome
  obtain ⟨folders, lists, sorted, mem⟩ :=
    simple.exists_folders located isDirectory isIndex
  have areFolders (folder : String) (member : folder ∈ folders) :
      IsProper folder.toList :=
    simple.isProper ((mem folder).mp member).1.isFolder
  refine ⟨folders, sorted.imp Text.lt_iff_bytesOf_lt.mp, mem, ?_, ?_, ?_⟩
  · intro other reordered workingDirectory
    have same := (simple.indexedFolders_of_perm reordered workingDirectory located
      isDirectory isIndex).trans lists
    exact ⟨same, print_autoNested same areFolders isIndex extension⟩
  · exact fun _ _ => directive_indexLink
  · intro retentive slashTaken error fails
    obtain ⟨folder, member, found, retains, failed⟩ :=
      exists_link_of_failure lists retentive fails
    refine ⟨folder, member, found, retains, ?_⟩
    obtain ⟨holds, joinTaken⟩ := (mem folder).mp member
    have taken : Takes (context.base.resolve (folder ++ "/" ++ index)) := by
      by_cases ended : context.base.text.toList.getLast? = some '/'
      · exact slashTaken ended folder member
      · rw [Path.resolve_names_eq_join (areFolders folder member) isIndex
          (simple.linkFree.nonempty_of_locate located) ended]
        exact joinTaken
    have leads := simple.locate_resolve located isDirectory isIndex holds taken
    obtain ⟨file, isFile⟩ := holds.isFile
    obtain ⟨again, other, still⟩ := retains.locate simple.linkFree leads isFile
    exact result_of_indexLink (areFolders folder member) isIndex extension
      (locateSource_iff.mpr ⟨again, other, still⟩) failed

/-- Two folders with an index document, the first of which runs a program, and one
without. -/
def folderDisk : Disk where
  entries := [(["B"], .directory), (["B", "Notes.scrip"], .file 0),
    (["a&"], .directory), (["a&", "Notes.scrip"], .file 1), (["c"], .directory)]
  nodes := #[{ content := .ofText "```sh\n:\n```" }, { content := .ofText "b" }]
  workingDirectory := []

theorem isSimple_folderDisk : folderDisk.IsSimple := by
  refine ⟨?_, ?_, ?_, ?_⟩
  · simp [Disk.LinkFree, folderDisk]
  · decide
  · decide
  · decide

theorem indexedFolders_folderDisk :
    Source.indexedFolders folderDisk ⟨"/"⟩ "Notes.scrip" = .ok ["B", "a&"] := by
  have located : folderDisk.locate ⟨"/"⟩ = .ok [] := by decide +kernel
  have isRoot : folderDisk.entryAt? [] = some .directory := rfl
  have indexed : (folderDisk.namesIn []).filter (fun name =>
      folderDisk.isDirectory (Path.join ⟨"/"⟩ ⟨name⟩) &&
        folderDisk.isFile (Path.join (Path.join ⟨"/"⟩ ⟨name⟩) ⟨"Notes.scrip"⟩)) =
      ["B", "a&"] := by
    decide +kernel
  rw [Source.indexedFolders, located]
  dsimp only
  rw [if_pos isRoot, indexed, List.mergeSort_of_pairwise]
  decide

/-- Folders come in the order of bytes, and what their names need is escaped. -/
theorem autoNested_exact_folderDisk :
    let environment : Environment := ⟨{}, fun disk _ _ => (.ok "", disk)⟩
    let index := environment.options.indexFileName
    let outcome := renderHashtag environment 3 ⟨⟨"/"⟩, []⟩ autoNested
      { disk := folderDisk }
    folderDisk.IsSimple ∧ folderDisk.locate ⟨"/"⟩ = .ok [] ∧
    folderDisk.entryAt? [] = some .directory ∧ IsProper index.toList ∧
    Path.extensionOf? index.toList = some Target.sourceExtension.toList ∧
    Retentive environment.machine ∧ outcome.failure = none ∧
    Html.print outcome.html =
      "<p><h2><a href=\"B/Notes.html\">B</a></h2>" ++
        "<h2><a href=\"a&amp;/Notes.html\">a&amp;</a></h2></p>\n\n" := by
  intro environment index outcome
  have located : folderDisk.locate ⟨"/"⟩ = .ok [] := by decide +kernel
  have isRoot : folderDisk.entryAt? [] = some .directory := rfl
  have isIndex : IsProper index.toList := by decide
  have extension :
      Path.extensionOf? index.toList = some Target.sourceExtension.toList := by
    decide
  have complete : outcome.failure = none := by
    change (renderHashtag environment 3 ⟨⟨"/"⟩, []⟩ autoNested
      { disk := folderDisk }).failure = none
    rw [renderHashtag_of_transcluded (brings_autoNested indexedFolders_folderDisk)]
    decide +kernel
  obtain ⟨folders, _, _, always, _⟩ :=
    @autoNested_exact environment ⟨⟨"/"⟩, []⟩ { disk := folderDisk } []
      isSimple_folderDisk located isRoot isIndex extension 1
  obtain ⟨lists, prints⟩ := always { disk := folderDisk } (.refl _) rfl
  obtain rfl : ["B", "a&"] = folders :=
    Except.ok.inj (indexedFolders_folderDisk.symm.trans lists)
  refine ⟨isSimple_folderDisk, located, isRoot, isIndex, extension,
    fun _ _ _ => .refl _, complete, (prints complete).trans ?_⟩
  decide +kernel

/-- The root with any number of slashes. -/
def slashes (count : Nat) : Path :=
  ⟨String.ofList (List.replicate count '/')⟩

theorem utf8ByteSize_slashes (count : Nat) :
    (slashes count).text.utf8ByteSize = count := by
  rw [slashes, String.utf8ByteSize_ofList]
  induction count with
  | zero => rfl
  | succ count inductionHypothesis =>
      rw [List.replicate_succ, String.utf8Len_cons, inductionHypothesis]
      rfl

theorem le_utf8ByteSize_joinFront (path : Path) :
    path.text.utf8ByteSize ≤ path.joinFront.utf8ByteSize := by
  rw [Path.joinFront]
  split
  · exact Nat.le_refl _
  · rw [String.utf8ByteSize_append]
    exact Nat.le_add_right _ _

theorem locate_slashes
    {disk : Disk}
    (linkFree : disk.LinkFree)
    {count : Nat}
    (positive : 0 < count)
    (short : count < Disk.maximalPath) :
    disk.locate (slashes count) = .ok [] := by
  have segments : Path.segmentsOf (slashes count).text.toList =
      List.replicate (count + 1) [] := by
    rw [slashes, String.toList_ofList]
    clear positive short
    induction count with
    | zero => rfl
    | succ count inductionHypothesis =>
        rw [List.replicate_succ', List.replicate_succ', ← inductionHypothesis]
        exact Path.segmentsOf_append _ List.not_mem_nil
  have stays (count : Nat) :
      disk.walkToLink true [] (List.replicate count []) = .at [] := by
    induction count with
    | zero => rfl
    | succ count inductionHypothesis =>
        rw [List.replicate_succ]
        exact inductionHypothesis
  have nonempty : (slashes count).text ≠ "" := by
    intro isEmpty
    have size := utf8ByteSize_slashes count
    rw [isEmpty] at size
    exact absurd size (Nat.ne_of_lt positive)
  have absolute : (slashes count).isAbsolute = true := by
    obtain ⟨fewer, rfl⟩ := Nat.exists_eq_succ_of_ne_zero (Nat.ne_of_gt positive)
    rw [Path.isAbsolute, slashes, String.toList_ofList, List.replicate_succ]
    rfl
  refine linkFree.locate_eq_ok_iff.mpr ⟨nonempty, ?_, ?_⟩
  · rw [utf8ByteSize_slashes]
    exact short
  · rw [segments, absolute]
    exact stays (count + 1)

/-- A link to an index document fails when a program removed the document meanwhile,
and a folder is not listed when the path to its index document gets too long. -/
theorem folders_lost :
    let environment : Environment :=
      ⟨{}, fun disk _ _ => (.ok "", disk.erase ["a&", "Notes.scrip"])⟩
    let index := environment.options.indexFileName
    folderDisk.IsSimple ∧ folderDisk.entryAt? [] = some .directory ∧
    IsProper index.toList ∧
    Path.extensionOf? index.toList = some Target.sourceExtension.toList ∧
    (∀ folder ∈ ["B", "a&"], HoldsFile folderDisk [] folder index) ∧
    (folderDisk.locate ⟨"/"⟩ = .ok [] ∧
      (renderHashtag environment 3 ⟨⟨"/"⟩, []⟩ autoNested
        { disk := folderDisk }).failure =
          some (.missingDocument (Path.resolve ⟨"/"⟩ ("a&/" ++ index)))) ∧
    folderDisk.locate (slashes 4090) = .ok [] ∧
    Source.indexedFolders folderDisk (slashes 4090) index = .ok [] := by
  intro environment index
  have isRoot : folderDisk.entryAt? [] = some .directory := rfl
  have isIndex : IsProper index.toList := by decide
  have holds : ∀ folder ∈ ["B", "a&"], HoldsFile folderDisk [] folder index := by
    simp only [List.forall_mem_cons]
    exact ⟨⟨rfl, 0, rfl⟩, ⟨rfl, 1, rfl⟩, List.forall_mem_nil _⟩
  have located : folderDisk.locate (slashes 4090) = .ok [] :=
    locate_slashes isSimple_folderDisk.linkFree (by decide) (by decide)
  refine ⟨isSimple_folderDisk, isRoot, isIndex, by decide, holds,
    ⟨by decide +kernel, ?_⟩, located, ?_⟩
  · rw [renderHashtag_of_transcluded (brings_autoNested indexedFolders_folderDisk)]
    decide +kernel
  · obtain ⟨folders, lists, _, mem⟩ :=
      isSimple_folderDisk.exists_folders located isRoot isIndex
    have none : folders = [] := by
      refine List.eq_nil_iff_forall_not_mem.mpr fun folder member => ?_
      obtain ⟨holds, taken⟩ := (mem folder).mp member
      have isFolder := isSimple_folderDisk.isProper holds.isFolder
      rw [Path.join_proper _ isFolder, Path.join_proper _ isIndex,
        Path.joinFront_name _ isFolder] at taken
      have long := le_utf8ByteSize_joinFront (slashes 4090)
      have name : index.utf8ByteSize = 11 := by decide
      have most : Disk.maximalPath = 4096 := rfl
      simp only [Takes, String.utf8ByteSize_append] at taken
      rw [utf8ByteSize_slashes] at long
      omega
    rw [lists, none]

end Page
end NotePress
