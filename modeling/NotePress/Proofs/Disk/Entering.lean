import NotePress.Proofs.Disk.Walking

/-!
# Entering directories

A path to a name in a directory is a text in front and the name. The text in front
is empty or ends in a slash, and on a disk without links it leads to one directory,
whatever the name is. So the path leads to that name there, when it is a directory
and neither the name nor the path is too long.
-/

namespace NotePress

namespace Path

/-- A text that a name can be put behind. -/
def IsFront (front : String) : Prop :=
  front = "" ∨ ∃ text, front = text ++ "/"

/-- The segments of a text without the part behind the last slash. -/
def frontSegments (front : String) : List (List Char) :=
  (segmentsOf front.toList).dropLast

theorem frontSegments_slash (text : String) :
    frontSegments (text ++ "/") = segmentsOf text.toList := by
  have cut := segmentsOf_append text.toList (List.not_mem_nil (a := '/'))
  rw [frontSegments, String.toList_append]
  exact (congrArg List.dropLast cut).trans List.dropLast_concat

/-- A name behind a front is the last segment. -/
theorem IsFront.segments
    {front name : String}
    (isFront : IsFront front)
    (proper : IsProper name.toList) :
    segmentsOf (front ++ name).toList = frontSegments front ++ [name.toList] := by
  rcases isFront with rfl | ⟨text, rfl⟩
  · rw [String.empty_append, segmentsOf_clean proper.clean]
    rfl
  · rw [frontSegments_slash, String.toList_append, String.toList_append,
      List.append_assoc]
    exact segmentsOf_append text.toList proper.clean

theorem isAbsolute_append
    {text : String}
    (nonempty : text ≠ "")
    (more : String) :
    isAbsolute ⟨text ++ more⟩ = isAbsolute ⟨text⟩ := by
  have some : text.toList ≠ [] := mt String.toList_eq_nil_iff.mp nonempty
  rw [isAbsolute, isAbsolute, String.toList_append,
    List.head?_append_of_ne_nil _ some]

/-- Only the front tells whether a path starts at the root. -/
theorem IsFront.isAbsolute
    {front name : String}
    (isFront : IsFront front)
    (proper : IsProper name.toList) :
    isAbsolute ⟨front ++ name⟩ = isAbsolute ⟨front⟩ := by
  rcases isFront with rfl | ⟨text, rfl⟩
  · have relative : name.toList.head? ≠ some '/' := fun slash =>
      proper.clean (List.mem_of_head? slash)
    simp [Path.isAbsolute, relative]
  · exact isAbsolute_append (by simp [String.append_eq_empty_iff]) name

theorem IsProper.append_ne_empty
    {name : String}
    (proper : IsProper name.toList)
    (front : String) :
    front ++ name ≠ "" := by
  intro isEmpty
  have busy := proper.notIdle
  rw [(String.append_eq_empty_iff.mp isEmpty).2] at busy
  cases busy

end Path

namespace Disk

open Path (IsFront IsProper frontSegments)

variable {disk : Disk}

/-- A text in front of a name leads to a location. -/
def Reaches
    (disk : Disk)
    (front : String)
    (location : Location) : Prop :=
  disk.walkToLink true
    (if Path.isAbsolute ⟨front⟩ then [] else disk.workingDirectory)
    (frontSegments front) = .at location

/-- Without links a path is walked along in one go. -/
theorem LinkFree.locate_eq_ok_iff
    (linkFree : disk.LinkFree)
    {path : Path}
    {location : Location} :
    disk.locate path = .ok location ↔
      path.text ≠ "" ∧ path.text.utf8ByteSize < maximalPath ∧
        disk.walkToLink true
          (if path.isAbsolute then [] else disk.workingDirectory)
          (Path.segmentsOf path.text.toList) = .at location := by
  rw [Disk.locate, locateFrom]
  split
  next isEmpty =>
    simp [String.isEmpty_iff.mp isEmpty]
  next nonempty =>
    have some : path.text ≠ "" := fun isEmpty =>
      nonempty (String.isEmpty_iff.mpr isEmpty)
    split
    next long => simp [Nat.not_lt.mpr long]
    next short =>
      rw [walk]
      rcases linkFree.walkToLink true (Path.segmentsOf path.text.toList)
          (if path.isAbsolute then [] else disk.workingDirectory) with
        ⟨found, arrives, _⟩ | ⟨failure, fails⟩
      · simp [arrives, some, Nat.lt_of_not_le short]
      · simp [fails]

/-- Without links a walk ends with the entering of its last name. -/
theorem LinkFree.walkToLink_concat
    (linkFree : disk.LinkFree)
    {start location : Location}
    {segments : List (List Char)}
    {name : String}
    (proper : IsProper name.toList) :
    disk.walkToLink true start (segments ++ [name.toList]) = .at location ↔
      ∃ directory, disk.walkToLink true start segments = .at directory ∧
        disk.entryAt? directory = some .directory ∧
        name.utf8ByteSize ≤ maximalName ∧ location = directory ++ [name] := by
  rw [walkToLink_append]
  rcases linkFree.walkToLink true segments start with
    ⟨directory, arrives, _⟩ | ⟨failure, fails⟩
  · have busy := Bool.eq_false_iff.mp proper.notIdle
    simp only [arrives, Arrival.at.injEq, exists_eq_left']
    by_cases entered : disk.entryAt? directory = some .directory
    · by_cases short : name.utf8ByteSize ≤ maximalName
      · rw [← @String.ofList_toList name] at short
        rw [walkToLink_of_unlinked entered busy proper.notUp
          (Nat.not_lt.mpr short) [] fun target =>
            linkFree.entryAt_ne_link _ target, Disk.walkToLink]
        rw [String.ofList_toList] at short ⊢
        simp [entered, short, eq_comm]
      · rw [Disk.walkToLink, entered]
        simp only [busy, proper.notUp, String.ofList_toList,
          Nat.lt_of_not_le short, short, false_and, and_false, if_true, if_false,
          reduceCtorEq, Bool.false_eq_true]
    · rw [Disk.walkToLink]
      split <;> simp_all
  · simp [fails]

/-- A name behind a front is found in the directory that the front leads to. -/
theorem LinkFree.locate_front
    (linkFree : disk.LinkFree)
    {front name : String}
    (isFront : IsFront front)
    (proper : IsProper name.toList)
    {location : Location} :
    disk.locate ⟨front ++ name⟩ = .ok location ↔
      (front ++ name).utf8ByteSize < maximalPath ∧
        ∃ directory, disk.Reaches front directory ∧
          disk.entryAt? directory = some .directory ∧
          name.utf8ByteSize ≤ maximalName ∧ location = directory ++ [name] := by
  have nonempty : front ++ name ≠ "" := proper.append_ne_empty front
  rw [linkFree.locate_eq_ok_iff, isFront.segments proper,
    isFront.isAbsolute proper, linkFree.walkToLink_concat proper]
  simp only [ne_eq, nonempty, not_false_eq_true, true_and, Reaches]

theorem Reaches.eq
    {front : String}
    {location other : Location}
    (reaches : disk.Reaches front location)
    (alsoReaches : disk.Reaches front other) :
    location = other := by
  rw [Reaches, reaches] at alsoReaches
  exact Arrival.at.inj alsoReaches

/-- The front behind a name leads into the directory of that name. -/
theorem LinkFree.reaches_enter
    (linkFree : disk.LinkFree)
    {front name : String}
    {directory : Location}
    (isFront : IsFront front)
    (proper : IsProper name.toList)
    (reaches : disk.Reaches front directory)
    (entered : disk.entryAt? directory = some .directory)
    (short : name.utf8ByteSize ≤ maximalName) :
    disk.Reaches (front ++ name ++ "/") (directory ++ [name]) := by
  have start : Path.isAbsolute ⟨front ++ name ++ "/"⟩ = Path.isAbsolute ⟨front⟩ :=
    (Path.isAbsolute_append (proper.append_ne_empty front) "/").trans
      (isFront.isAbsolute proper)
  rw [Reaches, Path.frontSegments_slash, isFront.segments proper, start,
    linkFree.walkToLink_concat proper]
  exact ⟨directory, reaches, entered, short, rfl⟩

end Disk
end NotePress
