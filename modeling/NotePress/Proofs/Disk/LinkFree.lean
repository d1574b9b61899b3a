import NotePress.Proofs.Path.Spelling
import NotePress.Stylesheet

/-!
# Disks without links

On a disk without links a path leads to the location that its names say. Making
and writing files puts no links on a disk.
-/

namespace NotePress
namespace Disk

open Path (step Spells)

/-- A disk on which no entry is a link. -/
def LinkFree (disk : Disk) : Prop :=
  ∀ found ∈ disk.entries, ∀ target, found.2 ≠ .link target

/-! ## Walking along a path -/

theorem mem_of_lookup
    {entries : List (Location × Entry)}
    {location : Location}
    {entry : Entry}
    (found : entries.lookup location = some entry) :
    (location, entry) ∈ entries := by
  induction entries with
  | nil => cases found
  | cons first others inductionHypothesis =>
      rw [List.lookup_cons] at found
      split at found
      next same =>
        cases found
        rw [beq_iff_eq.mp same]
        exact List.mem_cons_self
      next => exact List.mem_cons_of_mem first (inductionHypothesis found)

theorem LinkFree.entryAt_ne_link
    {disk : Disk}
    (linkFree : disk.LinkFree)
    (location : Location)
    (target : String) :
    disk.entryAt? location ≠ some (.link target) := by
  intro found
  cases location with
  | nil => cases found
  | cons first others => exact linkFree _ (mem_of_lookup found) target rfl

/-- A walk along segments takes the steps that they say. -/
theorem LinkFree.walkToLink
    {disk : Disk}
    (linkFree : disk.LinkFree)
    (follows : Bool)
    (segments : List (List Char))
    (location : Location) :
    (∃ found, disk.walkToLink follows location segments = .at found ∧
      found.map String.toList =
        segments.foldl step (location.map String.toList)) ∨
    ∃ failure, disk.walkToLink follows location segments = .failed failure := by
  induction segments generalizing location with
  | nil => exact .inl ⟨location, rfl, rfl⟩
  | cons segment others inductionHypothesis =>
      rw [Disk.walkToLink, List.foldl_cons, step]
      split
      next => exact .inr ⟨_, rfl⟩
      next =>
        split
        next idle => exact inductionHypothesis location
        next busy =>
          split
          next up =>
            rw [← List.map_dropLast]
            exact inductionHypothesis location.dropLast
          next notUp =>
            have next := inductionHypothesis
              (location ++ [String.ofList segment])
            rw [List.map_append, List.map_singleton, String.toList_ofList]
              at next
            split
            next => exact .inr ⟨_, rfl⟩
            next =>
              dsimp only
              split
              next target linked =>
                exact absurd linked (linkFree.entryAt_ne_link _ target)
              next => exact next
      next => exact .inr ⟨_, rfl⟩

/-- A path that leads to a location does so by the steps of its segments. -/
theorem LinkFree.locate
    {disk : Disk}
    (linkFree : disk.LinkFree)
    {path : Path}
    {location : Location}
    (found : disk.locate path = .ok location) :
    location.map String.toList =
      (Path.segmentsOf path.text.toList).foldl step
        ((if path.isAbsolute then [] else disk.workingDirectory).map
          String.toList) := by
  rw [Disk.locate, locateFrom] at found
  split at found
  next => cases found
  next =>
    split at found
    next => cases found
    next =>
      rw [walk] at found
      rcases linkFree.walkToLink true (Path.segmentsOf path.text.toList)
          (if path.isAbsolute then [] else disk.workingDirectory) with
        ⟨arrived, reaches, steps⟩ | ⟨failure, fails⟩
      · rw [reaches] at found
        cases found
        exact steps
      · rw [fails] at found
        cases found

theorem foldl_step_proper
    {names : List (List Char)}
    (proper : ∀ name ∈ names, Path.IsProper name)
    (start : List (List Char)) :
    names.foldl step start = start ++ names := by
  induction names generalizing start with
  | nil => rw [List.foldl_nil, List.append_nil]
  | cons first others inductionHypothesis =>
      rw [List.foldl_cons, Path.step_proper _ (proper first List.mem_cons_self),
        inductionHypothesis fun name member =>
          proper name (List.mem_cons_of_mem first member)]
      simp

/-- A path that spells names leads to the location with these names. -/
theorem LinkFree.locate_spells
    {disk : Disk}
    (linkFree : disk.LinkFree)
    {path : Path}
    {names : List (List Char)}
    {location : Location}
    (spells : Spells path names)
    (found : disk.locate path = .ok location) :
    location.map String.toList = names := by
  have blank : ∀ start, step start [] = start := fun _ => rfl
  rw [linkFree.locate found, spells.isAbsolute]
  rcases spells.segments with segments | ⟨_, segments⟩
  · rw [segments, List.foldl_cons, blank, List.foldl_cons, blank,
      foldl_step_proper spells.proper]
    rfl
  · rw [segments, List.foldl_cons, blank, foldl_step_proper spells.proper]
    rfl

theorem isProper_foldl_step
    {segments names : List (List Char)}
    (clean : ∀ segment ∈ segments, '/' ∉ segment)
    (proper : ∀ name ∈ names, Path.IsProper name) :
    ∀ name ∈ segments.foldl step names, Path.IsProper name := by
  induction segments generalizing names with
  | nil => exact proper
  | cons first others inductionHypothesis =>
      apply inductionHypothesis fun segment member =>
        clean segment (List.mem_cons_of_mem first member)
      intro name member
      rw [step] at member
      split at member
      next => exact proper name member
      next busy =>
        split at member
        next => exact proper name (List.dropLast_subset names member)
        next notUp =>
          rcases List.mem_append.mp member with old | new
          · exact proper name old
          · rw [List.mem_singleton.mp new]
            exact Path.isProper_of_step (clean first List.mem_cons_self) busy
              notUp

/-- A disk without links, whose working directory is known by its names. -/
structure IsPlain (disk : Disk) : Prop where
  linkFree : disk.LinkFree
  workingDirectory : disk.workingDirectory.IsProper

/-- Locations that paths lead to have proper names, since segments do. -/
theorem IsPlain.isProper_of_locate
    {disk : Disk}
    (plain : disk.IsPlain)
    {path : Path}
    {location : Location}
    (found : disk.locate path = .ok location) :
    location.IsProper := by
  intro name member
  have inNames : name.toList ∈ location.map String.toList :=
    List.mem_map_of_mem member
  rw [plain.linkFree.locate found] at inNames
  refine isProper_foldl_step
    (fun segment member => Path.clean_of_mem_segmentsOf member) ?_ _ inNames
  intro start member
  split at member
  · cases member
  · obtain ⟨found, inside, rfl⟩ := List.mem_map.mp member
    exact plain.workingDirectory found inside

/-! ## Making and writing files -/

section Preservation

variable {disk : Disk}

theorem mem_replaceEntry
    {location : Location}
    {entry : Entry}
    {entries : List (Location × Entry)}
    {found : Location × Entry}
    (member : found ∈ replaceEntry location entry entries) :
    found = (location, entry) ∨ found ∈ entries := by
  induction entries with
  | nil => exact .inl (List.mem_singleton.mp member)
  | cons first others inductionHypothesis =>
      rw [replaceEntry] at member
      split at member
      · exact (List.mem_cons.mp member).imp_right (List.mem_cons_of_mem first)
      · rcases List.mem_cons.mp member with rfl | later
        · exact .inr List.mem_cons_self
        · exact (inductionHypothesis later).imp_right
            (List.mem_cons_of_mem first)

theorem IsPlain.changeFile
    (plain : disk.IsPlain)
    (file : OpenFile)
    (change : FileNode → FileNode) :
    (disk.changeFile file change).IsPlain := by
  cases file with
  | none => exact plain
  | some index => exact ⟨plain.linkFree, plain.workingDirectory⟩

theorem IsPlain.openAt
    (plain : disk.IsPlain)
    {location : Location}
    {file : OpenFile}
    {opened : Disk}
    (opens : disk.openAt location = .ok (file, opened)) :
    opened.IsPlain := by
  rw [Disk.openAt] at opens
  split at opens
  · cases opens
  · cases opens
    exact plain
  · cases opens
    exact plain
  · cases opens
    refine ⟨?_, plain.workingDirectory⟩
    intro found member target
    rcases mem_replaceEntry member with rfl | old
    · exact Entry.noConfusion
    · exact plain.linkFree found old target

theorem IsPlain.createFile
    (plain : disk.IsPlain)
    {path : Path}
    {file : OpenFile}
    {created : Disk}
    (creates : disk.createFile path = .ok (file, created)) :
    created.IsPlain := by
  rw [Disk.createFile] at creates
  split at creates
  · cases creates
  · split at creates
    · cases creates
    next opened opens =>
      cases creates
      exact (plain.openAt opens).changeFile _ _

end Preservation

end Disk

/-! ## Stylesheets -/

/-- A file that is written whole is created first, and then changed. -/
theorem Disk.creates_of_writeFile
    {disk written : Disk}
    {path : Path}
    {content : Content}
    (writes : disk.writeFile path content = .ok written) :
    ∃ file created change, disk.createFile path = .ok (file, created) ∧
      written = created.changeFile file change := by
  rw [writeFile] at writes
  split at writes
  · cases writes
  next file created creates =>
    cases writes
    exact ⟨file, created, _, creates, rfl⟩

/-- So is a file that another one is copied over. -/
theorem Disk.creates_of_copyFile
    {disk written : Disk}
    {source target : Path}
    (copies : disk.copyFile source target = .ok written) :
    ∃ file created change, disk.createFile target = .ok (file, created) ∧
      written = created.changeFile file change := by
  rw [copyFile] at copies
  split at copies
  · cases copies
  · split at copies
    · cases copies
    · split at copies
      · cases copies
      next file created creates =>
        cases copies
        exact ⟨file, created, _, creates, rfl⟩
    · cases copies

/-- A stylesheet comes to be in a directory as a file that is created there, and then
changed. -/
theorem Stylesheet.creates_of_write
    {disk written : Disk}
    {directory : Path}
    {source : Option Path}
    (writes : Stylesheet.write disk directory source = .ok written) :
    ∃ file created change,
      disk.createFile (Stylesheet.pathIn directory) = .ok (file, created) ∧
        written = created.changeFile file change := by
  have succeeds : ∀ {result : Except Disk.Failure Disk},
      result.mapError FileError.failed = .ok written → result = .ok written := by
    rintro (_ | _) ⟨⟩
    rfl
  unfold Stylesheet.write at writes
  cases source with
  | none => exact Disk.creates_of_writeFile (succeeds writes)
  | some path =>
      dsimp only at writes
      split at writes
      · exact Disk.creates_of_copyFile (succeeds writes)
      · cases writes

theorem Disk.IsPlain.writeStylesheet
    {disk written : Disk}
    (plain : disk.IsPlain)
    {directory : Path}
    {source : Option Path}
    (writes : Stylesheet.write disk directory source = .ok written) :
    written.IsPlain := by
  obtain ⟨file, created, change, creates, rfl⟩ := Stylesheet.creates_of_write writes
  exact (plain.createFile creates).changeFile file change

end NotePress
