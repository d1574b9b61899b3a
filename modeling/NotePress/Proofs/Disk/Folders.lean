import NotePress.Proofs.Disk.Sights
import NotePress.Proofs.Path.Targets

/-!
# Folders with an index document

On a disk without links the folders that are listed are those that hold a file with
the name of index documents, as long as the path to it is not too long. They are listed
once each and in order, so the order of the disk does not matter. The target of the
index document of a folder leads to it from the directory.
-/

namespace NotePress

namespace Path

/-! ## Joined paths -/

/-- The text in front of a name that is joined to a path. -/
def joinFront (path : Path) : String :=
  if path.text.isEmpty || path.text.toList.getLast? == some '/' then path.text
  else path.text ++ "/"

theorem isFront_joinFront (path : Path) : IsFront path.joinFront := by
  rw [joinFront]
  split
  next ended =>
    rcases Bool.or_eq_true_iff.mp ended with isEmpty | isSlash
    · exact .inl (String.isEmpty_iff.mp isEmpty)
    · obtain ⟨before, whole⟩ := List.getLast?_eq_some_iff.mp (eq_of_beq isSlash)
      refine .inr ⟨String.ofList before, ?_⟩
      rw [← String.toList_inj, whole, String.toList_append, String.toList_ofList]
      rfl
  next => exact .inr ⟨path.text, rfl⟩

/-- A name is put behind the front of a path. -/
theorem join_proper
    (path : Path)
    {name : String}
    (proper : IsProper name.toList) :
    join path ⟨name⟩ = ⟨path.joinFront ++ name⟩ := by
  have relative : ¬(Path.mk name).isAbsolute = true := fun absolute =>
    proper.clean (List.mem_of_head? (eq_of_beq absolute))
  rw [join, if_neg relative, joinFront]
  split <;> rfl

/-- A slash is put behind a text that does not end in one. -/
theorem joinFront_unended
    {path : Path}
    (nonempty : path.text ≠ "")
    (unended : path.text.toList.getLast? ≠ some '/') :
    path.joinFront = path.text ++ "/" := by
  rw [joinFront, if_neg]
  simp only [Bool.or_eq_true, beq_iff_eq, String.isEmpty_iff, not_or]
  exact ⟨nonempty, unended⟩

/-- Behind a name there is no slash yet. -/
theorem joinFront_name
    (front : String)
    {name : String}
    (proper : IsProper name.toList) :
    joinFront ⟨front ++ name⟩ = front ++ name ++ "/" := by
  have nonempty : name.toList ≠ [] := by
    intro isEmpty
    have busy := proper.notIdle
    rw [isEmpty] at busy
    cases busy
  have noSlash : (front ++ name).toList.getLast? ≠ some '/' := by
    rw [String.toList_append, List.getLast?_append_of_ne_nil _ nonempty]
    exact fun isLast => proper.clean (List.mem_of_getLast? isLast)
  exact joinFront_unended (proper.append_ne_empty front) noSlash

section Names

variable
  {folder name : String}
  (isFolder : IsProper folder.toList)
  (isName : IsProper name.toList)

include isFolder isName

theorem segmentsOf_names :
    segmentsOf (folder ++ "/" ++ name).toList = [folder.toList, name.toList] := by
  rw [String.toList_append, String.toList_append, List.append_assoc]
  exact (segmentsOf_append folder.toList isName.clean).trans
    (congrArg (· ++ _) (segmentsOf_clean isFolder.clean))

/-- A target of two names leads to them from a path. -/
theorem resolve_names
    {path : Path}
    (nonempty : path.text ≠ "") :
    path.resolve (folder ++ "/" ++ name) =
      ⟨path.text ++ "/" ++ folder ++ "/" ++ name⟩ := by
  have front {text : String} (some : text ≠ "") :
      followFront ⟨text⟩ = text ++ "/" :=
    if_neg (mt String.isEmpty_iff.mp some)
  have entered := isFolder.append_ne_empty (path.text ++ "/")
  rw [resolve, segmentsOf_names isFolder isName, List.foldl_cons, List.foldl_cons,
    List.foldl_nil, follow_proper path isFolder, front nonempty,
    String.ofList_toList, follow_proper _ isName, front entered,
    String.ofList_toList]

/-- Behind a path without a slash at its end, names are resolved as they are joined. -/
theorem resolve_names_eq_join
    {path : Path}
    (nonempty : path.text ≠ "")
    (unended : path.text.toList.getLast? ≠ some '/') :
    path.resolve (folder ++ "/" ++ name) = (path.join ⟨folder⟩).join ⟨name⟩ := by
  rw [resolve_names isFolder isName nonempty, join_proper path isFolder,
    join_proper _ isName, joinFront_name _ isFolder, joinFront_unended nonempty unended]

end Names

end Path

/-! ## Targets of two names -/

namespace Target

open Path (IsProper)

section Names

variable
  {folder name : String}
  (isFolder : IsProper folder.toList)
  (isName : IsProper name.toList)

include isFolder isName

theorem splitName_names :
    Path.splitName? (Path.segmentsOf (folder ++ "/" ++ name).toList) =
      some ([folder.toList], name.toList) := by
  rw [Path.segmentsOf_names isFolder isName]
  exact Path.splitName_concat [folder.toList] isName

/-- A file in a folder is a source document when its name says so. -/
theorem isSource_names
    (extension : Path.extensionOf? name.toList = some sourceExtension.toList) :
    isSource (folder ++ "/" ++ name) = true := by
  rw [isSource, Path.extension?, splitName_names isFolder isName]
  dsimp only
  rw [extension, Option.map_some, String.ofList_toList]
  exact beq_self_eq_true _

/-- The page of a file in a folder is in the folder. -/
theorem page_names :
    page (folder ++ "/" ++ name) =
      folder ++ "/" ++ String.ofList (Path.pageName name.toList) := by
  have isPage : IsProper (String.ofList (Path.pageName name.toList)).toList := by
    simpa using Path.isProper_pageName isName
  have segments := (Path.segments_page (splitName_names isFolder isName)).2
  apply String.toList_injective
  rw [← Path.textOf_segmentsOf (page _).toList, segments,
    ← Path.textOf_segmentsOf (folder ++ "/" ++ _).toList,
    Path.segmentsOf_names isFolder isPage, String.toList_ofList]
  rfl

end Names

end Target

namespace Disk

open Path (IsProper joinFront)

variable {disk : Disk}

/-! ## Fronts of a directory -/

section Fronts

variable
  (linkFree : disk.LinkFree)
  {base : Path}
  {location : Location}
  (located : disk.locate base = .ok location)

include linkFree located

theorem LinkFree.nonempty_of_locate : base.text ≠ "" :=
  (linkFree.locate_eq_ok_iff.mp located).1

/-- The text of a path with a slash behind it leads where the path does. -/
theorem LinkFree.reaches_slash : disk.Reaches (base.text ++ "/") location := by
  obtain ⟨nonempty, _, arrives⟩ := linkFree.locate_eq_ok_iff.mp located
  rwa [Reaches, Path.frontSegments_slash, Path.isAbsolute_append nonempty]

/-- What names are joined to leads where the path does. -/
theorem LinkFree.reaches_joinFront : disk.Reaches base.joinFront location := by
  obtain ⟨nonempty, _, arrives⟩ := linkFree.locate_eq_ok_iff.mp located
  rw [joinFront]
  split
  next ended =>
    have isSlash := (Bool.or_eq_true_iff.mp ended).resolve_left
      (mt String.isEmpty_iff.mp nonempty)
    obtain ⟨before, whole⟩ := List.getLast?_eq_some_iff.mp (eq_of_beq isSlash)
    have cut : Path.segmentsOf base.text.toList =
        Path.segmentsOf before ++ [[]] := by
      rw [whole]
      exact Path.segmentsOf_append before List.not_mem_nil
    rw [cut, walkToLink_append] at arrives
    rw [Reaches, Path.frontSegments, cut, List.dropLast_concat]
    split at arrives
    next reached leads =>
      rw [Disk.walkToLink] at arrives
      split at arrives
      · cases arrives
      · rw [leads]
        exact arrives
      · cases arrives
    next => cases arrives
    next => cases arrives
  next => exact linkFree.reaches_slash located

end Fronts

/-! ## Folders that hold a file -/

/-- A disk without links, with one entry for a location and names that a system
takes. -/
structure IsSimple (disk : Disk) : Prop where
  linkFree : disk.LinkFree
  distinct : (disk.entries.map Prod.fst).Nodup
  proper : ∀ found ∈ disk.entries, found.1.IsProper
  short : ∀ found ∈ disk.entries, ∀ name ∈ found.1,
    name.utf8ByteSize ≤ maximalName

/-- A folder directly inside a directory that holds a regular file. -/
structure HoldsFile
    (disk : Disk)
    (directory : Location)
    (folder name : String) : Prop where
  isFolder : disk.entryAt? (directory ++ [folder]) = some .directory
  isFile : ∃ index, disk.entryAt? (directory ++ [folder] ++ [name]) =
    some (.file index)

/-- A path that is not too long for the system. -/
def Takes (path : Path) : Prop :=
  path.text.utf8ByteSize < maximalPath

section Folders

variable
  (simple : disk.IsSimple)
  {base : Path}
  {location : Location}
  (located : disk.locate base = .ok location)
  (isDirectory : disk.entryAt? location = some .directory)
  {folder name : String}
  (isName : IsProper name.toList)

include simple

theorem IsSimple.isProper
    {entry : Entry}
    (found : disk.entryAt? (location ++ [name]) = some entry) :
    IsProper name.toList :=
  simple.proper _ (mem_of_entryAt (by simp) found) name (by simp)

theorem IsSimple.isShort
    {entry : Entry}
    (found : disk.entryAt? (location ++ [name]) = some entry) :
    name.utf8ByteSize ≤ maximalName :=
  simple.short _ (mem_of_entryAt (by simp) found) name (by simp)

include located isDirectory isName

/-- The folders that are listed hold the file. -/
theorem IsSimple.isIndexed_iff :
    folder ∈ disk.namesIn location ∧ Source.IsIndexed disk base name folder ↔
      HoldsFile disk location folder name ∧
        Takes (Path.join (Path.join base ⟨folder⟩) ⟨name⟩) := by
  have linkFree := simple.linkFree
  have reaches := linkFree.reaches_joinFront located
  have isFront := Path.isFront_joinFront base
  have joined (isFolder : IsProper folder.toList) :
      Path.join (Path.join base ⟨folder⟩) ⟨name⟩ =
        ⟨base.joinFront ++ folder ++ "/" ++ name⟩ := by
    rw [Path.join_proper base isFolder, Path.join_proper _ isName,
      Path.joinFront_name base.joinFront isFolder]
  have isSlash : Path.IsFront (base.joinFront ++ folder ++ "/") := .inr ⟨_, rfl⟩
  constructor
  · rintro ⟨inside, isIndexed⟩
    obtain ⟨entry, member⟩ := Source.mem_namesIn.mp inside
    have isFolder : IsProper folder.toList := simple.proper _ member folder (by simp)
    obtain ⟨found, leads, isFound⟩ := isDirectory_iff.mp isIndexed.1
    rw [Path.join_proper base isFolder,
      linkFree.locate_front isFront isFolder] at leads
    obtain ⟨_, around, reachesAround, _, short, rfl⟩ := leads
    obtain rfl := reaches.eq reachesAround
    have enters := linkFree.reaches_enter isFront isFolder reaches isDirectory short
    obtain ⟨file, index, leads, isFile⟩ := isFile_iff.mp isIndexed.2
    rw [joined isFolder] at leads ⊢
    rw [linkFree.locate_front isSlash isName] at leads
    obtain ⟨taken, entered, reachesEntered, _, _, rfl⟩ := leads
    obtain rfl := enters.eq reachesEntered
    exact ⟨⟨isFound, index, isFile⟩, taken⟩
  · rintro ⟨⟨isFound, index, isFile⟩, taken⟩
    have isFolder := simple.isProper isFound
    have short := simple.isShort isFound
    have enters := linkFree.reaches_enter isFront isFolder reaches isDirectory short
    rw [joined isFolder] at taken
    refine ⟨Source.mem_namesIn.mpr ⟨_, mem_of_entryAt (by simp) isFound⟩, ?_, ?_⟩
    · refine isDirectory_iff.mpr ⟨_, ?_, isFound⟩
      rw [Path.join_proper base isFolder, linkFree.locate_front isFront isFolder]
      refine ⟨?_, location, reaches, isDirectory, short, rfl⟩
      simp only [Takes, String.utf8ByteSize_append] at taken ⊢
      omega
    · refine isFile_iff.mpr ⟨_, index, ?_, isFile⟩
      rw [joined isFolder, linkFree.locate_front isSlash isName]
      exact ⟨taken, _, enters, isFound, simple.isShort isFile, rfl⟩

/-- The target of a file in a folder leads to it, when the system takes the path. -/
theorem IsSimple.locate_resolve
    (holds : HoldsFile disk location folder name)
    (taken : Takes (base.resolve (folder ++ "/" ++ name))) :
    disk.locate (base.resolve (folder ++ "/" ++ name)) =
      .ok (location ++ [folder] ++ [name]) := by
  have linkFree := simple.linkFree
  obtain ⟨isFound, index, isFile⟩ := holds
  have isFolder := simple.isProper isFound
  have enters := linkFree.reaches_enter (.inr ⟨base.text, rfl⟩) isFolder
    (linkFree.reaches_slash located) isDirectory (simple.isShort isFound)
  rw [Path.resolve_names isFolder isName (linkFree.nonempty_of_locate located)]
    at taken ⊢
  rw [linkFree.locate_front (.inr ⟨_, rfl⟩) isName]
  exact ⟨taken, _, enters, isFound, simple.isShort isFile, rfl⟩

/-- The folders that are listed are those that hold the file, once each and in order. -/
theorem IsSimple.exists_folders :
    ∃ folders,
      Source.indexedFolders disk base name = .ok folders ∧
      folders.Pairwise (· < ·) ∧
      ∀ folder, folder ∈ folders ↔
        HoldsFile disk location folder name ∧
          Takes (Path.join (Path.join base ⟨folder⟩) ⟨name⟩) := by
  obtain ⟨folders, lists⟩ := Source.exists_indexedFolders located isDirectory name
  obtain ⟨place, listed⟩ := Source.lists_of_indexedFolders simple.distinct lists
  obtain rfl : location = place := Except.ok.inj (located.symm.trans listed.located)
  refine ⟨folders, lists, ?_, fun folder => (listed.mem folder).trans
    (simple.isIndexed_iff located isDirectory isName)⟩
  exact (listed.sorted.and listed.nodup).imp fun {first second} ordered =>
    lt_of_le_of_ne ordered.1 ordered.2

end Folders

/-! ## The order of a disk -/

section Orders

variable
  {other : Disk}
  (simple : disk.IsSimple)
  (reordered : other.entries.Perm disk.entries)

include simple reordered

theorem IsSimple.of_perm : other.IsSimple where
  linkFree := fun found member => simple.linkFree found (reordered.mem_iff.mp member)
  distinct := (reordered.map Prod.fst).nodup_iff.mpr simple.distinct
  proper := fun found member => simple.proper found (reordered.mem_iff.mp member)
  short := fun found member => simple.short found (reordered.mem_iff.mp member)

theorem IsSimple.entryAt_of_perm (location : Location) :
    other.entryAt? location = disk.entryAt? location := by
  by_cases isRoot : location = []
  · rw [isRoot]
    rfl
  · rw [entryAt_of_ne_nil _ isRoot, entryAt_of_ne_nil _ isRoot]
    cases found : disk.entries.lookup location with
    | some entry =>
        exact lookup_of_mem (simple.of_perm reordered).distinct
          (reordered.mem_iff.mpr (mem_of_lookup found))
    | none =>
        cases there : other.entries.lookup location with
        | none => rfl
        | some entry =>
            have here := lookup_of_mem simple.distinct
              (reordered.mem_iff.mp (mem_of_lookup there))
            rw [found] at here
            cases here

/-- The order of the entries of a disk does not matter for the folders. -/
theorem IsSimple.indexedFolders_of_perm
    (workingDirectory : other.workingDirectory = disk.workingDirectory)
    {base : Path}
    {location : Location}
    (located : disk.locate base = .ok location)
    (isDirectory : disk.entryAt? location = some .directory)
    {name : String}
    (isName : IsProper name.toList) :
    Source.indexedFolders other base name = Source.indexedFolders disk base name := by
  have same := simple.entryAt_of_perm reordered
  have keeps : KeepsWays disk other :=
    { workingDirectory := workingDirectory
      directory := fun found => (same _).trans found
      link := by simp [same] }
  obtain ⟨folders, lists, sorted, mem⟩ :=
    simple.exists_folders located isDirectory isName
  obtain ⟨others, otherLists, otherSorted, otherMem⟩ :=
    (simple.of_perm reordered).exists_folders (keeps.locate located)
      ((same location).trans isDirectory) isName
  have holds (folder : String) : HoldsFile other location folder name ↔
      HoldsFile disk location folder name := by
    constructor <;> rintro ⟨isFolder, isFile⟩
    · exact ⟨by rwa [← same], by rwa [same] at isFile⟩
    · exact ⟨by rwa [same], by rwa [← same] at isFile⟩
  rw [lists, otherLists]
  refine congrArg _ (List.Perm.eq_of_pairwise' (otherSorted.imp le_of_lt)
    (sorted.imp le_of_lt) ((List.perm_ext_iff_of_nodup (otherSorted.imp ne_of_lt)
      (sorted.imp ne_of_lt)).mpr fun folder => ?_))
  rw [otherMem, mem, holds]

end Orders

end Disk
end NotePress
