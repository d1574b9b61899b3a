import NotePress.Proofs.Disk.Entering

/-!
# Targets of pages

The page of a source document is told in two ways. A link names it by its target with
another extension, a text with slashes; and it is written at the path of the document
with another extension, after the target was followed from a directory. Both replace
the extension of the same name, since what a target has behind its name is idle: so
the target of the page leads to the page of what the target leads to.
-/

namespace NotePress
namespace Path

/-- The text in front of a name that is entered from a path. -/
def followFront (path : Path) : String :=
  if path.text.isEmpty then "" else path.text ++ "/"

theorem isFront_followFront (path : Path) : IsFront path.followFront := by
  rw [followFront]
  split
  · exact .inl rfl
  · exact .inr ⟨path.text, rfl⟩

/-- Following a name puts it behind the path. -/
theorem follow_proper
    (path : Path)
    {name : List Char}
    (proper : IsProper name) :
    path.follow name = ⟨path.followFront ++ String.ofList name⟩ := by
  rw [follow, followFront, if_neg (Bool.eq_false_iff.mp proper.notIdle),
    if_neg proper.notUp]
  split <;> simp

theorem foldl_follow_idle
    {segments : List (List Char)}
    (idle : ∀ segment ∈ segments, isIdle segment = true)
    (path : Path) :
    segments.foldl follow path = path := by
  induction segments with
  | nil => simp
  | cons first others inductionHypothesis =>
      rw [List.foldl_cons, follow, if_pos (idle first List.mem_cons_self)]
      exact inductionHypothesis fun segment member =>
        idle segment (List.mem_cons_of_mem first member)

/-- A target with a name leads to that name, from where the segments before it lead
to. -/
theorem resolve_of_splitName
    (base : Path)
    {target : String}
    {before : List (List Char)}
    {name : List Char}
    (split : splitName? (segmentsOf target.toList) = some (before, name)) :
    base.resolve target = (before.foldl follow base).follow name := by
  obtain ⟨after, segments, idle, _⟩ := segments_of_splitName split
  rw [resolve, segments, List.foldl_append, List.foldl_cons,
    foldl_follow_idle idle]

theorem splitName_page
    {target : String}
    {before : List (List Char)}
    {name : List Char}
    (split : splitName? (segmentsOf target.toList) = some (before, name)) :
    splitName? (segmentsOf (Target.page target).toList) =
      some (before, pageName name) := by
  obtain ⟨proper, segments⟩ := segments_page split
  rw [segments, splitName_concat before (isProper_pageName proper)]

theorem textOf_segmentsOf (text : List Char) :
    textOf (segmentsOf text) = text := by
  rw [textOf, segmentsOf, Text.splitAt_eq_splitOn]
  exact List.intercalate_splitOn '/'

/-- The page of a name that is entered is the name of the page. -/
theorem page_follow
    (path : Path)
    {name : List Char}
    (proper : IsProper name) :
    (path.follow name).page = path.follow (pageName name) := by
  have segments : ∀ {last : List Char}, IsProper last →
      segmentsOf (path.followFront ++ String.ofList last).toList =
        frontSegments path.followFront ++ [last] := by
    intro last lastProper
    have named : IsProper (String.ofList last).toList := by simpa using lastProper
    have cut := (isFront_followFront path).segments named
    rwa [String.toList_ofList] at cut
  rw [follow_proper path proper, follow_proper path (isProper_pageName proper), page,
    withExtension, replaceExtension, segments proper, splitName_concat _ proper]
  apply congrArg Path.mk
  apply String.toList_injective
  have whole := segments (isProper_pageName proper)
  rw [String.toList_ofList, ← textOf_segmentsOf
    (path.followFront ++ String.ofList (pageName name)).toList, whole]
  rfl

end Path

namespace Target

/-- The target of a page is not that of a source document. -/
theorem isSource_page (target : String) : isSource (page target) = false := by
  rw [isSource, beq_eq_false_iff_ne, Path.extension?]
  cases split : Path.splitName? (Path.segmentsOf target.toList) with
  | none =>
      have kept : page target = target := by
        simp [page, Path.withExtension, Path.replaceExtension, split]
      simp [kept, split]
  | some found =>
      obtain ⟨before, name⟩ := found
      have nonempty : name ≠ [] := by
        intro isEmpty
        have busy := (Path.segments_page split).1.notIdle
        rw [isEmpty] at busy
        cases busy
      simp only [Path.splitName_page split, Path.extensionOf_pageName nonempty]
      decide

end Target

namespace Disk

open Path (IsProper pageName)

theorem utf8ByteSize_pageName
    {name : List Char}
    (found : Path.extensionOf? name = some Target.sourceExtension.toList) :
    (String.ofList (pageName name)).utf8ByteSize <
      (String.ofList name).utf8ByteSize := by
  have sizes : (".html").utf8ByteSize < (".scrip").utf8ByteSize := by decide
  have whole : String.ofList name =
      String.ofList (Path.stemOf name) ++ ".scrip" := by
    rw [← String.toList_inj, String.toList_append, String.toList_ofList,
      String.toList_ofList]
    exact Path.eq_of_extensionOf found
  have page : String.ofList (pageName name) =
      String.ofList (Path.stemOf name) ++ ".html" := by
    rw [← String.toList_inj, String.toList_append, String.toList_ofList,
      String.toList_ofList]
    rfl
  rw [whole, page, String.utf8ByteSize_append, String.utf8ByteSize_append]
  omega

/-- Without links the page beside a document that a path leads to is found beside the
path. -/
theorem LinkFree.locate_follow_page
    {disk : Disk}
    (linkFree : disk.LinkFree)
    {path : Path}
    {name : List Char}
    (proper : IsProper name)
    (extension : Path.extensionOf? name = some Target.sourceExtension.toList)
    {source : Location}
    (found : disk.locate (path.follow name) = .ok source) :
    disk.locate (path.follow (pageName name)) = .ok source.page := by
  have isFront := Path.isFront_followFront path
  have shorter := utf8ByteSize_pageName extension
  rw [Path.follow_proper path proper, linkFree.locate_front isFront
    (by simpa using proper)] at found
  obtain ⟨short, directory, reaches, entered, shortName, rfl⟩ := found
  rw [Path.follow_proper path (Path.isProper_pageName proper),
    linkFree.locate_front isFront (by simpa using Path.isProper_pageName proper)]
  rw [String.utf8ByteSize_append] at short ⊢
  refine ⟨by omega, directory, reaches, entered, by omega, ?_⟩
  rw [Location.page_concat, String.toList_ofList]

end Disk

namespace Target

/-- The target of the page of a source document leads to the page of what the target
of the document leads to, and without links to the place beside that document. The
target of a page is not that of a source document. -/
theorem resolve_page
    (base : Path)
    (target : String) :
    (isSource target = true →
      (base.resolve target).page = base.resolve (page target) ∧
      ∀ disk : Disk, disk.LinkFree → ∀ source,
        disk.locate (base.resolve target) = .ok source →
        disk.locate (base.resolve (page target)) = .ok source.page) ∧
    isSource (page target) = false := by
  refine ⟨fun isSource => ?_, isSource_page target⟩
  obtain ⟨before, name, split, extension⟩ :=
    Path.exists_splitName_of_isSource isSource
  obtain ⟨proper, _⟩ := Path.segments_page split
  rw [Path.resolve_of_splitName base split,
    Path.resolve_of_splitName base (Path.splitName_page split)]
  refine ⟨Path.page_follow _ proper, ?_⟩
  intro disk linkFree source found
  exact linkFree.locate_follow_page proper extension found

/-- A document with points in its name, beside the folder that links it. -/
def dottedDisk : Disk where
  entries := [(["notes"], .directory), (["notes", "a"], .directory),
    (["notes", "b"], .directory), (["notes", "b", ".c.d.scrip"], .file 0)]
  nodes := #[{}]
  workingDirectory := []

theorem resolve_page_dotted :
    isSource "../b//.c.d.scrip/." = true ∧
    page "../b//.c.d.scrip/." = "../b//.c.d.html" ∧
    (Path.resolve ⟨"/notes/a"⟩ "../b//.c.d.scrip/.").page =
      Path.resolve ⟨"/notes/a"⟩ "../b//.c.d.html" ∧
    dottedDisk.locate (Path.resolve ⟨"/notes/a"⟩ "../b//.c.d.html") =
      .ok ["notes", "b", ".c.d.html"] ∧
    isSource (page "../b//.c.d.scrip/.") = false := by
  have isSource : isSource "../b//.c.d.scrip/." = true := by decide
  have pageIs : page "../b//.c.d.scrip/." = "../b//.c.d.html" := by decide
  have linkFree : dottedDisk.LinkFree := by simp [Disk.LinkFree, dottedDisk]
  have found : dottedDisk.locate
      (Path.resolve ⟨"/notes/a"⟩ "../b//.c.d.scrip/.") =
      .ok ["notes", "b", ".c.d.scrip"] := by decide
  have beside : Location.page ["notes", "b", ".c.d.scrip"] =
      ["notes", "b", ".c.d.html"] := by decide
  obtain ⟨leads, notSource⟩ := resolve_page ⟨"/notes/a"⟩ "../b//.c.d.scrip/."
  obtain ⟨samePath, located⟩ := leads isSource
  have pageFound := located dottedDisk linkFree _ found
  rw [pageIs] at samePath pageFound
  rw [beside] at pageFound
  exact ⟨isSource, pageIs, samePath, pageFound, notSource⟩

end Target
end NotePress
