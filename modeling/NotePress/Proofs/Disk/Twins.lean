import NotePress.Proofs.Disk.Sights

/-!
# Twin disks

Twin disks have the same entries and hold the same, but for the files at hidden places.
Paths lead to the same places on both, and files are made and copied alike. A hidden file
may be changed on one of them: as long as it has no other name, the disks stay twins.
-/

namespace NotePress
namespace Disk

/-- Disks that differ at most in the files at hidden places. -/
structure Twin (hidden : Location → Prop) (left right : Disk) : Prop where
  entries : left.entries = right.entries
  workingDirectory : left.workingDirectory = right.workingDirectory
  size : left.nodes.size = right.nodes.size
  nodes : ∀ {location index}, left.entryAt? location = some (.file index) →
    ¬hidden location → left.node index = right.node index

/-- Results that are the same error, or values that are related. -/
inductive Matched
    {Error Value : Type}
    (related : Value → Value → Prop) :
    Except Error Value → Except Error Value → Prop
  | error (error : Error) : Matched related (.error error) (.error error)
  | ok
      {left right : Value}
      (same : related left right) : Matched related (.ok left) (.ok right)

theorem Matched.mapError
    {Error Other Value : Type}
    {related : Value → Value → Prop}
    {left right : Except Error Value}
    (matched : Matched related left right)
    (change : Error → Other) :
    Matched related (left.mapError change) (right.mapError change) := by
  cases matched with
  | error error => exact .error (change error)
  | ok same => exact .ok same

/-- Changing a node that is not there changes nothing. -/
theorem node_changeNode_of_le
    (disk : Disk)
    {index : Nat}
    (absent : disk.nodes.size ≤ index)
    (change : FileNode → FileNode) :
    (disk.changeNode index change).node index = disk.node index := by
  rw [node, node, changeNode, Array.getElem?_modify, if_pos rfl,
    Array.getElem?_eq_none absent]
  rfl

namespace Twin

variable
  {hidden : Location → Prop}
  {left right third : Disk}

theorem refl (disk : Disk) : Twin hidden disk disk :=
  ⟨rfl, rfl, rfl, fun _ _ => rfl⟩

variable (twin : Twin hidden left right)

include twin

/-! ## What is the same -/

theorem entryAt (location : Location) :
    left.entryAt? location = right.entryAt? location := by
  cases location with
  | nil => rfl
  | cons first others => exact congrArg (List.lookup _) twin.entries

theorem symm : Twin hidden right left where
  entries := twin.entries.symm
  workingDirectory := twin.workingDirectory.symm
  size := twin.size.symm
  nodes := fun found seen =>
    (twin.nodes ((twin.entryAt _).trans found) seen).symm

theorem trans (back : Twin hidden right third) : Twin hidden left third where
  entries := twin.entries.trans back.entries
  workingDirectory := twin.workingDirectory.trans back.workingDirectory
  size := twin.size.trans back.size
  nodes := fun found seen => (twin.nodes found seen).trans
    (back.nodes ((twin.entryAt _).symm.trans found) seen)

/-- A twin of an orderly disk is orderly. -/
theorem orderly (orderly : left.IsOrderly) : right.IsOrderly := by
  obtain ⟨distinct, named, inside, held, plain, alone, workingDirectory⟩ := orderly
  simp only [twin.entryAt] at inside
  rw [twin.entries] at distinct named inside held plain alone
  rw [twin.size] at held
  rw [twin.workingDirectory] at workingDirectory
  exact ⟨distinct, named, inside, held, plain, alone, workingDirectory⟩

/-- Twin disks hold the same at places that are not hidden. -/
theorem contentAt
    {location : Location}
    (seen : ¬hidden location) :
    left.contentAt location = right.contentAt location := by
  rw [Disk.contentAt, Disk.contentAt, nodeAt?, nodeAt?, ← twin.entryAt]
  cases found : left.entryAt? location with
  | none => rfl
  | some entry =>
      cases entry with
      | file index => exact congrArg FileNode.content (twin.nodes found seen)
      | _ => rfl

/-- A walk comes to the same link, or to its end, on both disks. -/
theorem walkToLink
    (follows : Bool)
    (location : Location)
    (segments : List (List Char)) :
    left.walkToLink follows location segments =
      right.walkToLink follows location segments := by
  induction segments generalizing location with
  | nil => rfl
  | cons segment others inductionHypothesis =>
      rw [Disk.walkToLink, Disk.walkToLink]
      simp only [twin.entryAt, inductionHypothesis]

/-- A walk comes to the same place on both disks. -/
theorem walk
    (follows : Bool)
    (links : Nat)
    (location : Location)
    (segments : List (List Char)) :
    left.walk follows links location segments =
      right.walk follows links location segments := by
  induction links generalizing location segments with
  | zero => rw [Disk.walk, Disk.walk, twin.walkToLink]
  | succ links inductionHypothesis =>
      rw [Disk.walk, Disk.walk, twin.walkToLink]
      simp only [inductionHypothesis]

/-- Paths lead to the same places. -/
theorem locate (path : Path) : left.locate path = right.locate path := by
  rw [Disk.locate, Disk.locate, locateFrom, locateFrom, twin.workingDirectory]
  simp only [twin.walk]

/-- A path has the same entry on both disks. -/
theorem lookup (path : Path) : left.lookup? path = right.lookup? path := by
  rw [lookup?, lookup?, twin.locate]
  simp only [twin.entryAt]

theorem hasEntry (path : Path) : left.hasEntry path = right.hasEntry path := by
  rw [Disk.hasEntry, Disk.hasEntry, twin.lookup]

theorem isFile (path : Path) : left.isFile path = right.isFile path := by
  rw [Disk.isFile, Disk.isFile, twin.lookup]

theorem isDirectory (path : Path) :
    left.isDirectory path = right.isDirectory path := by
  rw [Disk.isDirectory, Disk.isDirectory, twin.lookup]

/-- Documents are found at the same places. -/
theorem locateSource (path : Path) :
    Page.locateSource left path = Page.locateSource right path := by
  rw [Page.locateSource, Page.locateSource, Source.locate, Source.locate,
    twin.isFile, twin.locate]

/-- The same folders are listed. -/
theorem indexedFolders (directory : Path) (indexFileName : String) :
    Source.indexedFolders left directory indexFileName =
      Source.indexedFolders right directory indexFileName := by
  rw [Source.indexedFolders, Source.indexedFolders, twin.locate]
  simp only [twin.entryAt, twin.isDirectory, twin.isFile, namesIn, twin.entries]

/-- A text at a place that is not hidden is read the same on both disks. -/
theorem readText
    {path : Path}
    (seen : ∀ location, left.locate path = .ok location → ¬hidden location) :
    left.readText path = right.readText path := by
  rw [Disk.readText, Disk.readText, ← twin.locate]
  cases located : left.locate path with
  | error failure => rfl
  | ok location =>
      dsimp only
      rw [← twin.entryAt]
      cases found : left.entryAt? location with
      | none => rfl
      | some entry =>
          cases entry with
          | file index =>
              dsimp only
              rw [twin.nodes found (seen location located)]
          | _ => rfl

/-- Documents at places that are not hidden read the same. -/
theorem loadSource
    (orderly : left.IsOrderly)
    {source : Location}
    {index : Nat}
    (found : left.entryAt? source = some (.file index))
    (seen : ¬hidden source) :
    Page.loadSource left source = Page.loadSource right source := by
  have same : ∀ location, left.locate (Location.path source) = .ok location →
      ¬hidden location := by
    intro location located
    rwa [orderly.locate_path found located]
  rw [Page.loadSource, Page.loadSource, Source.read, Source.read,
    twin.hasEntry, twin.readText same]

/-! ## The same changes -/

/-- Changing a file on both disks keeps them twins. -/
theorem changeFile
    (file : OpenFile)
    (change : FileNode → FileNode) :
    Twin hidden (left.changeFile file change) (right.changeFile file change) := by
  cases file with
  | none => exact twin
  | some index =>
      refine ⟨twin.entries, twin.workingDirectory, ?_, ?_⟩
      · rw [Disk.changeFile, Disk.changeFile, changeNode, changeNode,
          Array.size_modify, Array.size_modify, twin.size]
      · intro location other found seen
        have same := twin.nodes found seen
        rw [Disk.changeFile, Disk.changeFile]
        by_cases changed : other = index
        · subst changed
          by_cases held : other < left.nodes.size
          · rw [node_changeNode _ held, node_changeNode _ (twin.size ▸ held), same]
          · have absent := Nat.le_of_not_lt held
            rw [node_changeNode_of_le _ absent,
              node_changeNode_of_le _ (twin.size ▸ absent), same]
        · rw [node_changeNode_of_ne _ changed, node_changeNode_of_ne _ changed, same]

/-- A file that is new on both disks is empty on both. -/
theorem addFile
    {location : Location}
    (absent : left.entryAt? location = none) :
    Twin hidden (left.addFile location {}) (right.addFile location {}) where
  entries := by
    rw [entries_addFile absent, entries_addFile ((twin.entryAt _).symm.trans absent),
      twin.entries, twin.size]
  workingDirectory := twin.workingDirectory
  size := (Array.size_push _).trans
    ((congrArg Nat.succ twin.size).trans (Array.size_push _).symm)
  nodes := by
    intro other index found seen
    rw [node_addFile, node_addFile]
    by_cases new : other = location
    · subst new
      rw [entryAt_addFile absent] at found
      cases found
      rw [node, node, Array.getElem?_eq_none (Nat.le_refl _),
        Array.getElem?_eq_none (Nat.le_of_eq twin.size.symm)]
    · rw [entryAt_addFile_of_ne absent _ new] at found
      exact twin.nodes found seen

/-- A file is opened on both disks, or on neither. -/
theorem openAt (location : Location) :
    Matched (fun first second => first.1 = second.1 ∧ Twin hidden first.2 second.2)
      (left.openAt location) (right.openAt location) := by
  rw [Disk.openAt, Disk.openAt, ← twin.entryAt]
  cases found : left.entryAt? location with
  | none => exact .ok ⟨congrArg some twin.size, twin.addFile found⟩
  | some entry =>
      cases entry with
      | file index => exact .ok ⟨rfl, twin⟩
      | directory => exact .error _
      | link target => exact .ok ⟨rfl, twin⟩
      | device => exact .ok ⟨rfl, twin⟩

/-- A file is made or emptied on both disks, or on neither. -/
theorem createFile (path : Path) :
    Matched (fun first second => first.1 = second.1 ∧ Twin hidden first.2 second.2)
      (left.createFile path) (right.createFile path) := by
  rw [Disk.createFile, Disk.createFile, ← twin.locate]
  cases left.locate path with
  | error failure => exact .error failure
  | ok location =>
      dsimp only
      have opens := twin.openAt location
      generalize left.openAt location = first at opens
      generalize right.openAt location = second at opens
      cases opens with
      | error failure => exact .error failure
      | ok same =>
          obtain ⟨file, opened⟩ := same
          refine .ok ⟨file, ?_⟩
          dsimp only
          rw [← file]
          exact opened.changeFile _ _

/-- A file is written on both disks, or on neither. -/
theorem writeFile (path : Path) (content : Content) :
    Matched (Twin hidden) (left.writeFile path content)
      (right.writeFile path content) := by
  rw [Disk.writeFile, Disk.writeFile]
  have creates := twin.createFile path
  generalize left.createFile path = first at creates
  generalize right.createFile path = second at creates
  cases creates with
  | error failure => exact .error failure
  | ok same =>
      obtain ⟨file, created⟩ := same
      refine .ok ?_
      rw [← file]
      exact created.changeFile _ _

/-! ## Changes of hidden files -/

omit twin in
/-- A hidden file without other names may be changed. -/
theorem of_changeFile
    {disk : Disk}
    (orderly : disk.IsOrderly)
    {location : Location}
    (isOutput : location.IsOutput)
    (hides : hidden location)
    {index : Nat}
    (found : disk.entryAt? location = some (.file index))
    (change : FileNode → FileNode) :
    Twin hidden disk (disk.changeFile (some index) change) := by
  refine ⟨rfl, rfl, (Array.size_modify).symm, ?_⟩
  intro other file same seen
  have different : file ≠ index := by
    rintro rfl
    rw [orderly.eq_of_file isOutput found same] at seen
    exact seen hides
  rw [Disk.changeFile, node_changeNode_of_ne _ different]

/-- Copying what is not hidden is the same on both disks. Copying what is hidden changes
a file that has to be hidden. -/
theorem copyFile
    (orderly : left.IsOrderly)
    {source target : Path}
    {location : Location}
    (isOutput : location.IsOutput)
    (spells : Path.Spells target (location.map String.toList))
    (around : left.entryAt? location.dropLast = some .directory)
    (shown : ∀ place, left.locate source = .ok place → hidden place →
      hidden location) :
    Matched (Twin hidden) (left.copyFile source target)
      (right.copyFile source target) := by
  rw [Disk.copyFile, Disk.copyFile, ← twin.locate]
  cases located : left.locate source with
  | error failure => exact .error failure
  | ok place =>
      dsimp only
      rw [← twin.entryAt]
      cases found : left.entryAt? place with
      | none => exact .error _
      | some entry =>
          cases entry with
          | file index =>
              dsimp only
              have creates := twin.createFile target
              have creation := @creates_of_createFile left orderly location isOutput
                target spells around
              generalize left.createFile target = first at creates creation
              generalize right.createFile target = second at creates
              cases creates with
              | error failure => exact .error failure
              | @ok first second same =>
                  obtain ⟨file, created⟩ := same
                  obtain ⟨made, creation⟩ := creation rfl
                  have stays := creation.grows.stays found
                  refine .ok ?_
                  rw [← file]
                  by_cases hides : hidden place
                  · rw [creation.file]
                    have hides := shown place located hides
                    have orderly := creation.grows.orderly
                    refine ((of_changeFile orderly isOutput hides creation.found
                      _).symm.trans created).trans ?_
                    exact of_changeFile (created.orderly orderly) isOutput hides
                      ((created.entryAt _).symm.trans creation.found) _
                  · rw [created.nodes stays hides]
                    exact created.changeFile _ _
          | directory | link target | device => exact .error _

/-- The stylesheet of a directory is written on both disks, or on neither. -/
theorem writeStylesheet
    (orderly : left.IsOrderly)
    {directory : Location}
    (proper : directory.IsProper)
    (around : left.entryAt? directory = some .directory)
    {source : Option Path}
    (shown : ∀ path place, source = some path → left.locate path = .ok place →
      hidden place → hidden (directory ++ [Stylesheet.fileName])) :
    Matched (Twin hidden) (Stylesheet.write left (Location.path directory) source)
      (Stylesheet.write right (Location.path directory) source) := by
  unfold Stylesheet.write
  cases source with
  | none => exact (twin.writeFile _ _).mapError _
  | some path =>
      dsimp only
      rw [← twin.hasEntry]
      split
      · refine (twin.copyFile orderly (.inr List.getLast?_concat)
          (proper.spells_join ⟨by decide, by decide, by decide⟩) ?_
          fun place located => shown path place rfl located).mapError _
        rwa [List.dropLast_concat]
      · exact .error _

end Twin
end Disk
end NotePress
