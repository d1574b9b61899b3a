import Mathlib.Data.List.Sort
import Mathlib.Data.String.Basic
import NotePress.Page.Render
import NotePress.Proofs.Disk.Outputs

/-!
# What documents see of a disk

Documents see what is on a disk apart from the files of outputs. On two disks that
show the same, paths lead to the same places, documents read the same, and the same
folders have index documents, as long as no output is taken for a document.
-/

namespace NotePress
namespace Disk

/-- What is seen at a location. -/
inductive Sight
  | nothing
  | file (content : Content)
  | directory
  | link (target : String)
  | device
  deriving DecidableEq

/-- What documents see at a location. The file of an output is not seen. -/
def sightAt (disk : Disk) (location : Location) : Sight :=
  match disk.entryAt? location with
  | none => .nothing
  | some (.file index) =>
      if location.IsOutput then .nothing else .file (disk.node index).content
  | some .directory => .directory
  | some (.link target) => .link target
  | some .device => .device

/-- Disks that show the same to documents. -/
structure Alike (left right : Disk) : Prop where
  workingDirectory : left.workingDirectory = right.workingDirectory
  sight : ∀ location, left.sightAt location = right.sightAt location

section Sights

variable
  {disk : Disk}
  {location : Location}

theorem sight_of_directory
    (found : disk.entryAt? location = some .directory) :
    disk.sightAt location = .directory := by
  rw [sightAt, found]

theorem sight_of_link
    {target : String}
    (found : disk.entryAt? location = some (.link target)) :
    disk.sightAt location = .link target := by
  rw [sightAt, found]

/-- A file is seen with its content, unless it is an output. -/
theorem sight_of_file
    {index : Nat}
    (found : disk.entryAt? location = some (.file index))
    (seen : ¬location.IsOutput) :
    disk.sightAt location = .file (disk.node index).content := by
  rw [sightAt, found]
  exact if_neg seen

/-- Where a directory is seen, there is one. -/
theorem directory_of_sight
    (sees : disk.sightAt location = .directory) :
    disk.entryAt? location = some .directory := by
  rw [sightAt] at sees
  split at sees
  · cases sees
  · split at sees <;> cases sees
  · assumption
  · cases sees
  · cases sees

/-- Where a symbolic link is seen, there is one with that target. -/
theorem link_of_sight
    {target : String}
    (sees : disk.sightAt location = .link target) :
    disk.entryAt? location = some (.link target) := by
  rw [sightAt] at sees
  split at sees
  · cases sees
  · split at sees <;> cases sees
  · cases sees
  · cases sees
    assumption
  · cases sees

/-- Where a file is seen, there is one with that content. -/
theorem file_of_sight
    {content : Content}
    (sees : disk.sightAt location = .file content) :
    ∃ index, disk.entryAt? location = some (.file index) ∧
      (disk.node index).content = content := by
  rw [sightAt] at sees
  split at sees
  · cases sees
  next index found =>
    split at sees
    · cases sees
    · cases sees
      exact ⟨index, found, rfl⟩
  · cases sees
  · cases sees
  · cases sees

/-- Nothing is seen only where nothing is, or the file of an output. -/
theorem eq_none_or_output
    (sees : disk.sightAt location = .nothing) :
    disk.entryAt? location = none ∨
      location.IsOutput ∧
        ∃ index, disk.entryAt? location = some (.file index) := by
  rw [sightAt] at sees
  split at sees
  next absent => exact .inl absent
  next index found =>
    split at sees
    next isOutput => exact .inr ⟨isOutput, index, found⟩
    next => cases sees
  · cases sees
  · cases sees
  · cases sees

theorem sight_of_none
    (absent : disk.entryAt? location = none) :
    disk.sightAt location = .nothing := by
  rw [sightAt, absent]

end Sights

namespace Alike

theorem refl (disk : Disk) : Alike disk disk :=
  ⟨rfl, fun _ => rfl⟩

variable {left right third : Disk}

theorem symm (alike : Alike left right) : Alike right left :=
  ⟨alike.workingDirectory.symm, fun location => (alike.sight location).symm⟩

theorem trans (front : Alike left right) (back : Alike right third) :
    Alike left third :=
  ⟨front.workingDirectory.trans back.workingDirectory,
    fun location => (front.sight location).trans (back.sight location)⟩

section Agreement

variable (alike : Alike left right)

include alike

/-- A directory is on both of two disks that show the same. -/
theorem directory
    {location : Location}
    (found : left.entryAt? location = some .directory) :
    right.entryAt? location = some .directory :=
  directory_of_sight ((alike.sight location).symm.trans (sight_of_directory found))

theorem link
    {location : Location}
    {target : String}
    (found : left.entryAt? location = some (.link target)) :
    right.entryAt? location = some (.link target) :=
  link_of_sight ((alike.sight location).symm.trans (sight_of_link found))

/-- A file that is no output is on both of two disks that show the same, with the same
content. -/
theorem file
    {location : Location}
    {index : Nat}
    (found : left.entryAt? location = some (.file index))
    (seen : ¬location.IsOutput) :
    ∃ other, right.entryAt? location = some (.file other) ∧
      (right.node other).content = (left.node index).content :=
  file_of_sight ((alike.sight location).symm.trans (sight_of_file found seen))

/-! ## Paths -/

/-- Disks that show the same have the same directories and links on the way of a
path. -/
theorem keepsWays : KeepsWays left right where
  workingDirectory := alike.workingDirectory.symm
  directory := alike.directory
  link := ⟨alike.link, alike.symm.link⟩

/-- Paths lead to the same places. -/
theorem locate
    {path : Path}
    {location : Location}
    (found : left.locate path = .ok location) :
    right.locate path = .ok location :=
  alike.keepsWays.locate found

end Agreement

end Alike

/-- A path has an entry exactly when it leads to the place of that entry. -/
theorem lookup_iff
    {disk : Disk}
    {path : Path}
    {entry : Entry} :
    disk.lookup? path = some entry ↔ ∃ location,
      disk.locate path = .ok location ∧ disk.entryAt? location = some entry := by
  rw [lookup?]
  constructor
  · intro found
    split at found
    · cases found
    next location located => exact ⟨location, located, found⟩
  · rintro ⟨location, located, found⟩
    rw [located]
    exact found

/-- A path is one of a file exactly when it leads to the place of a file. -/
theorem isFile_iff
    {disk : Disk}
    {path : Path} :
    disk.isFile path = true ↔ ∃ location index,
      disk.locate path = .ok location ∧
        disk.entryAt? location = some (.file index) := by
  rw [isFile, lookup?]
  constructor
  · intro isFile
    split at isFile
    next index found =>
      split at found
      · cases found
      next location located => exact ⟨location, index, located, found⟩
    next => cases isFile
  · rintro ⟨location, index, located, found⟩
    rw [located]
    dsimp only
    rw [found]

/-- A path is one of a directory exactly when it leads to the place of a directory. -/
theorem isDirectory_iff
    {disk : Disk}
    {path : Path} :
    disk.isDirectory path = true ↔ ∃ location,
      disk.locate path = .ok location ∧
        disk.entryAt? location = some .directory := by
  rw [isDirectory, beq_iff_eq, lookup_iff]

end Disk

namespace Page

open Disk (Alike)

/-! ## Documents -/

/-- A path leads to a source document exactly when it leads to the place of a file. -/
theorem locateSource_iff
    {disk : Disk}
    {path : Path}
    {source : Location} :
    locateSource disk path = .ok source ↔
      disk.locate path = .ok source ∧
        ∃ index, disk.entryAt? source = some (.file index) := by
  rw [locateSource, Source.locate]
  constructor
  · intro located
    split at located
    next found =>
      cases located
      split at found
      next isFile =>
        obtain ⟨location, index, reached, isFile⟩ := Disk.isFile_iff.mp isFile
        rw [reached] at found
        cases found
        exact ⟨reached, index, isFile⟩
      next => cases found
    next => cases located
    next => cases located
  · rintro ⟨reached, index, found⟩
    rw [if_pos (Disk.isFile_iff.mpr ⟨source, index, reached, found⟩), reached]

end Page

namespace Source

section Read

variable
  {disk : Disk}
  {path : Path}

/-- A path that leads nowhere cannot be read. -/
theorem read_of_lost
    {failure : Disk.Failure}
    (lost : disk.locate path = .error failure) :
    read disk path = .error (.notFound path) := by
  rw [read, Disk.hasEntry, Disk.lookup?, lost]
  rfl

/-- What is read at a path is told by the entry that the path leads to. -/
theorem read_of_located
    {location : Location}
    (located : disk.locate path = .ok location) :
    read disk path =
      match disk.entryAt? location with
      | none => .error (.notFound path)
      | some .directory => .error (.failed .isDirectory)
      | some (.file index) =>
          match (disk.node index).content.text? with
          | none => .error (.failed .notText)
          | some text => .ok text
      | some _ => .ok "" := by
  have has : disk.hasEntry path = (disk.entryAt? location).isSome := by
    rw [Disk.hasEntry, Disk.lookup?, located]
  cases found : disk.entryAt? location with
  | none =>
      rw [found] at has
      rw [read, if_neg (Bool.eq_false_iff.mp has)]
  | some entry =>
      rw [found, Option.isSome_some] at has
      rw [read, if_pos has, Disk.readText, located]
      dsimp only
      rw [found]
      cases entry with
      | file index =>
          dsimp only
          cases (disk.node index).content.text? <;> rfl
      | _ => rfl

end Read

end Source

namespace Disk.Alike

variable
  {left right : Disk}
  (alike : Alike left right)

include alike

/-- A source document is located at the same place on both disks. -/
theorem locateSource
    {path : Path}
    {source : Location}
    (located : Page.locateSource left path = .ok source)
    (seen : ¬source.IsOutput) :
    Page.locateSource right path = .ok source := by
  obtain ⟨reached, index, found⟩ := Page.locateSource_iff.mp located
  obtain ⟨other, same, _⟩ := alike.file found seen
  exact Page.locateSource_iff.mpr ⟨alike.locate reached, other, same⟩

/-- A device is on both of two disks that show the same. -/
theorem device
    {location : Location}
    (found : left.entryAt? location = some .device) :
    right.entryAt? location = some .device := by
  have sight := alike.sight location
  rw [sightAt, found, sightAt] at sight
  dsimp only at sight
  split at sight
  · cases sight
  · split at sight <;> cases sight
  · cases sight
  · cases sight
  · assumption

/-- Texts that are no outputs read the same. -/
theorem read
    {path : Path}
    (seen : ∀ location, left.locate path = .ok location → ¬location.IsOutput) :
    Source.read right path = Source.read left path := by
  cases located : left.locate path with
  | error failure =>
      have lost : ∃ other, right.locate path = .error other := by
        cases elsewhere : right.locate path with
        | error other => exact ⟨other, rfl⟩
        | ok location =>
            rw [alike.symm.locate elsewhere] at located
            cases located
      obtain ⟨other, lost⟩ := lost
      rw [Source.read_of_lost located, Source.read_of_lost lost]
  | ok location =>
      rw [Source.read_of_located located,
        Source.read_of_located (alike.locate located)]
      cases found : left.entryAt? location with
      | none =>
          have sight := alike.sight location
          rw [sight_of_none found] at sight
          rcases eq_none_or_output sight.symm with absent | ⟨isOutput, _⟩
          · rw [absent]
          · exact absurd isOutput (seen location located)
      | some entry =>
          cases entry with
          | file index =>
              obtain ⟨other, same, content⟩ :=
                alike.file found (seen location located)
              rw [same]
              dsimp only
              rw [content]
          | directory => rw [alike.directory found]
          | link target => rw [alike.link found]
          | device => rw [alike.device found]

/-- Documents read the same. -/
theorem loadSource
    (orderly : left.IsOrderly)
    {source : Location}
    {index : Nat}
    (found : left.entryAt? source = some (.file index))
    (seen : ¬source.IsOutput) :
    Page.loadSource right source = Page.loadSource left source := by
  have same : ∀ location, left.locate (Location.path source) = .ok location →
      ¬location.IsOutput := by
    intro location located
    rwa [orderly.locate_path found located]
  rw [Page.loadSource, Page.loadSource, alike.read same]

end Disk.Alike

/-! ## Folders with index documents -/

namespace Source

/-- A folder in a directory that has an index document. -/
def IsIndexed
    (disk : Disk)
    (directory : Path)
    (indexFileName name : String) : Prop :=
  disk.isDirectory (Path.join directory ⟨name⟩) = true ∧
    disk.isFile (Path.join (Path.join directory ⟨name⟩) ⟨indexFileName⟩) = true

/-- The names in a directory are those of the entries directly inside it. -/
theorem mem_namesIn
    {disk : Disk}
    {directory : Location}
    {name : String} :
    name ∈ disk.namesIn directory ↔
      ∃ entry, (directory ++ [name], entry) ∈ disk.entries := by
  rw [Disk.namesIn, List.mem_filterMap]
  constructor
  · rintro ⟨⟨location, entry⟩, member, named⟩
    dsimp only at named
    split at named
    next last found =>
      split at named
      next inside =>
        cases named
        refine ⟨entry, ?_⟩
        rw [← inside, List.dropLast_append_getLast? name found]
        exact member
      next => cases named
    next => cases named
  · rintro ⟨entry, member⟩
    refine ⟨_, member, ?_⟩
    dsimp only
    rw [List.getLast?_concat, List.dropLast_concat]
    exact if_pos rfl

/-- The name that a location has in a directory, if it is directly inside. -/
def nameIn? (directory location : Location) : Option String :=
  match location.getLast? with
  | some name => if location.dropLast = directory then some name else none
  | none => none

/-- The name of a location in a directory is the last of its names. -/
theorem eq_of_nameIn
    {directory location : Location}
    {name : String}
    (inside : nameIn? directory location = some name) :
    location = directory ++ [name] := by
  rw [nameIn?] at inside
  split at inside
  next last found =>
    split at inside
    next around =>
      cases inside
      rw [← around, List.dropLast_append_getLast? name found]
    next => cases inside
  next => cases inside

/-- No name is twice in a directory. -/
theorem nodup_namesIn
    {disk : Disk}
    (distinct : (disk.entries.map Prod.fst).Nodup)
    (directory : Location) :
    (disk.namesIn directory).Nodup := by
  have names : disk.namesIn directory =
      (disk.entries.map Prod.fst).filterMap (nameIn? directory) := by
    rw [List.filterMap_map]
    rfl
  rw [names]
  refine distinct.filterMap ?_
  intro left right name leftIs rightIs
  rw [eq_of_nameIn leftIs, eq_of_nameIn rightIs]

/-- The folders that are listed are those with an index document, once each and in
order. -/
structure Lists
    (disk : Disk)
    (directory : Path)
    (indexFileName : String)
    (location : Location)
    (folders : List String) : Prop where
  located : disk.locate directory = .ok location
  isDirectory : disk.entryAt? location = some .directory
  sorted : folders.Pairwise (· ≤ ·)
  nodup : folders.Nodup
  mem : ∀ name, name ∈ folders ↔
    name ∈ disk.namesIn location ∧ IsIndexed disk directory indexFileName name

/-- The folders that are listed are those with an index document. -/
theorem lists_of_indexedFolders
    {disk : Disk}
    (distinct : (disk.entries.map Prod.fst).Nodup)
    {directory : Path}
    {indexFileName : String}
    {folders : List String}
    (lists : indexedFolders disk directory indexFileName = .ok folders) :
    ∃ location, Lists disk directory indexFileName location folders := by
  rw [indexedFolders] at lists
  split at lists
  next => cases lists
  next location located =>
    split at lists
    next isDirectory =>
      cases lists
      refine ⟨location, located, isDirectory, List.pairwise_mergeSort' _ _,
        (List.mergeSort_perm _ _).nodup_iff.mpr
          ((nodup_namesIn distinct location).filter _), fun name => ?_⟩
      rw [List.mem_mergeSort, List.mem_filter, Bool.and_eq_true]
      rfl
    next => cases lists

/-- The folders of a directory that is there can be listed. -/
theorem exists_indexedFolders
    {disk : Disk}
    {directory : Path}
    {location : Location}
    (located : disk.locate directory = .ok location)
    (isDirectory : disk.entryAt? location = some .directory)
    (indexFileName : String) :
    ∃ folders, indexedFolders disk directory indexFileName = .ok folders := by
  rw [indexedFolders, located]
  dsimp only
  rw [if_pos isDirectory]
  exact ⟨_, rfl⟩

/-- No index document of a folder that is listed is an output. -/
def IndexesSeen
    (disk : Disk)
    (directory : Path)
    (indexFileName : String) : Prop :=
  ∀ folders, indexedFolders disk directory indexFileName = .ok folders →
    ∀ name ∈ folders, ∀ source,
      disk.locate
          (Path.join (Path.join directory ⟨name⟩) ⟨indexFileName⟩) =
        .ok source →
      ¬source.IsOutput

end Source

namespace Disk.Alike

variable
  {left right : Disk}
  (alike : Alike left right)
  (leftOrderly : left.IsOrderly)
  {directory : Path}
  {indexFileName : String}

include alike leftOrderly

/-- A folder that is listed on one disk is listed on the other. -/
theorem isIndexed
    {location : Location}
    (located : left.locate directory = .ok location)
    {name : String}
    (listed : name ∈ left.namesIn location)
    (indexed : Source.IsIndexed left directory indexFileName name)
    (seen : ∀ source,
      left.locate (Path.join (Path.join directory ⟨name⟩) ⟨indexFileName⟩) =
        .ok source →
      ¬source.IsOutput) :
    name ∈ right.namesIn location ∧
      Source.IsIndexed right directory indexFileName name := by
  obtain ⟨entry, member⟩ := Source.mem_namesIn.mp listed
  have nonempty : location ++ [name] ≠ [] := by simp
  have found := leftOrderly.entryAt_of_mem nonempty member
  have proper : Path.IsProper name.toList :=
    leftOrderly.isProper found name (by simp)
  obtain ⟨folder, folderLocated, isDirectory⟩ := isDirectory_iff.mp indexed.1
  obtain ⟨index, file, indexLocated, isFile⟩ := isFile_iff.mp indexed.2
  have shown : right.entryAt? (location ++ [name]) ≠ none := by
    intro absent
    have sight := alike.sight (location ++ [name])
    rw [sight_of_none absent] at sight
    rcases eq_none_or_output sight with none | ⟨isOutput, other, isFile⟩
    · rw [found] at none
      cases none
    · have same := locate_join located proper
        (leftOrderly.output_ne_link isOutput) folderLocated
      rw [same, isFile] at isDirectory
      cases isDirectory
  refine ⟨?_, ?_, ?_⟩
  · obtain ⟨other, present⟩ := Option.ne_none_iff_exists'.mp shown
    exact Source.mem_namesIn.mpr ⟨other, mem_of_entryAt nonempty present⟩
  · exact isDirectory_iff.mpr
      ⟨folder, alike.locate folderLocated, alike.directory isDirectory⟩
  · obtain ⟨other, same, _⟩ := alike.file isFile (seen index indexLocated)
    exact isFile_iff.mpr ⟨index, other, alike.locate indexLocated, same⟩

/-- The same folders are listed, when no index document is an output. -/
theorem indexedFolders
    (rightOrderly : right.IsOrderly)
    {folders : List String}
    (lists : Source.indexedFolders left directory indexFileName = .ok folders)
    (leftSeen : Source.IndexesSeen left directory indexFileName)
    (rightSeen : Source.IndexesSeen right directory indexFileName) :
    Source.indexedFolders right directory indexFileName = .ok folders := by
  obtain ⟨location, listed⟩ :=
    Source.lists_of_indexedFolders leftOrderly.distinct lists
  obtain ⟨others, otherLists⟩ := Source.exists_indexedFolders
    (alike.locate listed.located) (alike.directory listed.isDirectory)
    indexFileName
  obtain ⟨place, otherListed⟩ :=
    Source.lists_of_indexedFolders rightOrderly.distinct otherLists
  obtain rfl : location = place := Except.ok.inj
    ((alike.locate listed.located).symm.trans otherListed.located)
  rw [otherLists]
  refine congrArg _ (List.Perm.eq_of_pairwise' otherListed.sorted listed.sorted
    ((List.perm_ext_iff_of_nodup otherListed.nodup listed.nodup).mpr
      fun name => ⟨fun member => ?_, fun member => ?_⟩))
  · obtain ⟨inside, indexed⟩ := (otherListed.mem name).mp member
    exact (listed.mem name).mpr (alike.symm.isIndexed rightOrderly
      otherListed.located inside indexed (rightSeen others otherLists name member))
  · obtain ⟨inside, indexed⟩ := (listed.mem name).mp member
    exact (otherListed.mem name).mpr (alike.isIndexed leftOrderly
      listed.located inside indexed (leftSeen folders lists name member))

end Disk.Alike

/-! ## Writing outputs is not seen -/

/-- Writing only outputs is not seen. -/
theorem Disk.Grows.alike
    {touched : Location → Prop}
    {before after : Disk}
    (grows : Disk.Grows touched before after)
    (outputs : ∀ location, touched location → location.IsOutput) :
    Disk.Alike before after := by
  refine ⟨grows.workingDirectory.symm, fun location => ?_⟩
  cases found : before.entryAt? location with
  | none =>
      rw [Disk.sight_of_none found]
      rcases grows.fresh found with absent | ⟨touched, index, made⟩
      · rw [Disk.sight_of_none absent]
      · rw [Disk.sightAt, made]
        exact (if_pos (outputs location touched)).symm
  | some entry =>
      rw [Disk.sightAt, Disk.sightAt, found, grows.stays found]
      cases entry with
      | file index =>
          dsimp only
          by_cases isOutput : location.IsOutput
          · rw [if_pos isOutput, if_pos isOutput]
          · rw [if_neg isOutput, if_neg isOutput, grows.contents found
              fun touched => isOutput (outputs location touched)]
      | _ => rfl

/-- Index documents that are found before writing are found after it too. -/
theorem Disk.Grows.indexesSeen
    {before after : Disk}
    (grows : Disk.Grows Location.IsOutput before after)
    (orderly : before.IsOrderly)
    {directory : Path}
    {indexFileName : String}
    (seen : Source.IndexesSeen after directory indexFileName) :
    Source.IndexesSeen before directory indexFileName := by
  have alike := grows.alike fun _ => id
  intro folders lists name member source located
  obtain ⟨location, listed⟩ :=
    Source.lists_of_indexedFolders orderly.distinct lists
  obtain ⟨others, otherLists⟩ := Source.exists_indexedFolders
    (alike.locate listed.located) (grows.stays listed.isDirectory) indexFileName
  obtain ⟨place, otherListed⟩ :=
    Source.lists_of_indexedFolders grows.orderly.distinct otherLists
  obtain rfl : location = place := Except.ok.inj
    ((alike.locate listed.located).symm.trans otherListed.located)
  obtain ⟨inside, isDirectory, isFile⟩ := (listed.mem name).mp member
  obtain ⟨entry, present⟩ := Source.mem_namesIn.mp inside
  obtain ⟨folder, folderLocated, folderFound⟩ :=
    Disk.isDirectory_iff.mp isDirectory
  obtain ⟨file, index, fileLocated, fileFound⟩ := Disk.isFile_iff.mp isFile
  have nonempty : location ++ [name] ≠ [] := by simp
  refine seen others otherLists name ((otherListed.mem name).mpr ⟨?_, ?_, ?_⟩)
    source (alike.locate located)
  · exact Source.mem_namesIn.mpr ⟨entry, Disk.mem_of_entryAt nonempty
      (grows.stays (orderly.entryAt_of_mem nonempty present))⟩
  · exact Disk.isDirectory_iff.mpr
      ⟨folder, alike.locate folderLocated, grows.stays folderFound⟩
  · exact Disk.isFile_iff.mpr
      ⟨file, index, alike.locate fileLocated, grows.stays fileFound⟩

end NotePress
