import NotePress.Proofs.Disk.Additions
import NotePress.Proofs.Disk.Entering

/-!
# What goes on standing

On a disk on which the directories and files of another one still stand, whatever they
hold and whatever is new, a path that led to a file without links leads to a file in the
same place.
-/

namespace NotePress
namespace Disk

/-- The directories and files of a disk stand on another one. -/
structure Retains (before after : Disk) : Prop where
  workingDirectory : after.workingDirectory = before.workingDirectory
  directory : ∀ {location}, before.entryAt? location = some .directory →
    after.entryAt? location = some .directory
  file : ∀ {location index}, before.entryAt? location = some (.file index) →
    ∃ other, after.entryAt? location = some (.file other)

/-- A directory or a file stands at a location. -/
def Stands (disk : Disk) (location : Location) : Prop :=
  disk.entryAt? location = some .directory ∨
    ∃ index, disk.entryAt? location = some (.file index)

/-- What a disk gains takes away nothing that stood on it. -/
theorem Accrues.retains
    {outputs : Path → Prop}
    {before after : Disk}
    (accrues : Accrues outputs before after) :
    Retains before after :=
  ⟨accrues.workingDirectory, accrues.stays, fun found => ⟨_, accrues.stays found⟩⟩

/-- A walk to something that stands starts at something that stands. -/
theorem stands_of_arrives
    {disk : Disk}
    {start location : Location}
    {segments : List (List Char)}
    (arrives : disk.walkToLink true start segments = .at location)
    (stands : disk.Stands location) :
    disk.Stands start := by
  cases segments with
  | nil =>
      rw [Arrival.at.inj arrives]
      exact stands
  | cons segment others =>
      rw [walkToLink] at arrives
      split at arrives
      · cases arrives
      next found => exact .inl found
      · cases arrives

namespace Retains

variable {first second third : Disk}

theorem refl (disk : Disk) : Retains disk disk :=
  ⟨rfl, id, fun found => ⟨_, found⟩⟩

theorem trans
    (front : Retains first second)
    (back : Retains second third) :
    Retains first third where
  workingDirectory := back.workingDirectory.trans front.workingDirectory
  directory := fun found => back.directory (front.directory found)
  file := fun found =>
    let ⟨_, there⟩ := front.file found
    back.file there

/-- Changing a file leaves everything standing. -/
theorem changeFile
    (retains : Retains first second)
    (file : OpenFile)
    (change : FileNode → FileNode) :
    Retains first (second.changeFile file change) := by
  cases file with
  | none => exact retains
  | some index =>
      exact ⟨retains.workingDirectory, retains.directory, retains.file⟩

variable
  (retains : Retains first second)
  (linkFree : first.LinkFree)

include retains

/-- Where something stands, there is no link. -/
theorem ne_link
    {location : Location}
    (stands : first.Stands location)
    (target : String) :
    second.entryAt? location ≠ some (.link target) := by
  rcases stands with found | ⟨index, found⟩
  · simp [retains.directory found]
  · obtain ⟨other, there⟩ := retains.file found
    simp [there]

include linkFree

/-- A walk to something that stands is the same. -/
theorem walkToLink
    {start location : Location}
    {segments : List (List Char)}
    (arrives : first.walkToLink true start segments = .at location)
    (stands : first.Stands location) :
    second.walkToLink true start segments = .at location := by
  induction segments generalizing start with
  | nil => exact arrives
  | cons segment others inductionHypothesis =>
      have around : first.entryAt? start = some .directory := by
        rw [Disk.walkToLink] at arrives
        split at arrives
        · cases arrives
        next found => exact found
        · cases arrives
      have still := retains.directory around
      by_cases idle : Path.isIdle segment = true
      · rw [Disk.walkToLink, around] at arrives
        rw [Disk.walkToLink, still]
        dsimp only at arrives ⊢
        rw [if_pos idle] at arrives ⊢
        exact inductionHypothesis arrives
      by_cases up : segment = ['.', '.']
      · rw [Disk.walkToLink, around] at arrives
        rw [Disk.walkToLink, still]
        dsimp only at arrives ⊢
        rw [if_neg idle, if_pos up] at arrives ⊢
        exact inductionHypothesis arrives
      by_cases long : maximalName < (String.ofList segment).utf8ByteSize
      · rw [Disk.walkToLink, around] at arrives
        dsimp only at arrives
        rw [if_neg idle, if_neg up, if_pos long] at arrives
        cases arrives
      · rw [walkToLink_of_unlinked around idle up long others fun target =>
          linkFree.entryAt_ne_link _ target] at arrives
        have next := stands_of_arrives arrives stands
        rw [walkToLink_of_unlinked still idle up long others (retains.ne_link next)]
        exact inductionHypothesis arrives

/-- A path to a file leads there again. -/
theorem locate
    {path : Path}
    {location : Location}
    {index : Nat}
    (located : first.locate path = .ok location)
    (isFile : first.entryAt? location = some (.file index)) :
    second.locate path = .ok location ∧
      ∃ other, second.entryAt? location = some (.file other) := by
  obtain ⟨nonempty, short, arrives⟩ := linkFree.locate_eq_ok_iff.mp located
  refine ⟨?_, retains.file isFile⟩
  have again := retains.walkToLink linkFree arrives (.inr ⟨index, isFile⟩)
  rw [Disk.locate, locateFrom, if_neg (mt String.isEmpty_iff.mp nonempty),
    if_neg (Nat.not_le_of_lt short), retains.workingDirectory, walk, again]

end Retains

end Disk
end NotePress
