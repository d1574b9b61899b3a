import NotePress.Page.Session

/-!
# Writing a page file

What is written to a page file is held back at first, and written over the end of the
file when too much is held back. So the text of a page file is what its file holds
followed by what is held back, and every unit is put after it.
-/

namespace NotePress

namespace Content

/-- Bytes that are written over the end of a content are put after it. -/
theorem writeAt_end (content : Content) (bytes : ByteArray) :
    content.writeAt content.bytes.size bytes = ⟨content.bytes ++ bytes⟩ := by
  have rest : content.bytes.extract (content.bytes.size + bytes.size)
      content.bytes.size = ByteArray.empty := by
    rw [ByteArray.extract_eq_empty_iff]
    omega
  have gap : zeros 0 = ByteArray.empty := rfl
  rw [writeAt, ByteArray.extract_zero_size, Nat.sub_self, rest, gap,
    ByteArray.append_empty, ByteArray.append_empty]

end Content

namespace Disk

/-- Changing a node changes what is there. -/
theorem node_changeNode
    (disk : Disk)
    {index : Nat}
    (held : index < disk.nodes.size)
    (change : FileNode → FileNode) :
    (disk.changeNode index change).node index = change (disk.node index) := by
  rw [node, node, changeNode, Array.getElem?_modify, if_pos rfl,
    Array.getElem?_eq_getElem held]
  rfl

theorem node_changeNode_of_ne
    (disk : Disk)
    {index other : Nat}
    (different : other ≠ index)
    (change : FileNode → FileNode) :
    (disk.changeNode index change).node other = disk.node other := by
  rw [node, node, changeNode, Array.getElem?_modify, if_neg different.symm]

end Disk

namespace Html

/-- The units of fragments, put together, are their texts put together. -/
theorem join_unitsOf (fragments : List Fragment) :
    String.join (unitsOf fragments) =
      String.join (fragments.map Fragment.text) := by
  induction fragments with
  | nil => rfl
  | cons first others inductionHypothesis =>
      rw [List.map_cons, String.join_cons, ← inductionHypothesis]
      cases first with
      | given text =>
          rw [unitsOf, String.join_cons]
          rfl
      | fixed text =>
          rw [unitsOf.eq_def]
          dsimp only
          split
          next unit units found =>
            rw [found, String.join_cons, String.join_cons,
              String.append_assoc]
            rfl
          next =>
            rw [String.join_cons]
            rfl

/-- What pieces are printed as are the texts of their fragments. -/
theorem print_eq (pieces : List Piece) :
    print pieces =
      String.join ((pieces.flatMap Piece.fragments).map Fragment.text) := by
  induction pieces with
  | nil => rfl
  | cons first others inductionHypothesis =>
      rw [List.flatMap_cons, List.map_append, String.join_append,
        ← inductionHypothesis, print, List.map_cons, String.join_cons]
      rfl

/-- The units of pieces are what the pieces are printed as, put together. -/
theorem join_units (pieces : List Piece) :
    String.join (units pieces) = print pieces := by
  rw [units, join_unitsOf, print_eq]

theorem print_append (left right : List Piece) :
    print (left ++ right) = print left ++ print right := by
  rw [print, List.map_append, String.join_append]
  rfl

end Html

namespace Page

namespace PageFile

theorem file_flush (page : PageFile) (disk : Disk) :
    (page.flush disk).1.file = page.file := by
  rw [flush]
  split <;> rfl

/-! ## What writing keeps -/

section Keeps

variable
  {holds : Disk → Prop}
  (page : PageFile)
  {disk : Disk}
  (writes : ∀ disk offset bytes, holds disk →
    holds (disk.writeAt page.file offset bytes))
  (start : holds disk)

include writes start

/-- What holds whenever the file of a page is written holds after a flush. -/
theorem keeps_flush : holds (page.flush disk).2 := by
  rw [flush]
  split
  · exact start
  · exact writes _ _ _ start

/-- What holds whenever the file of a page is written holds after a unit is put. -/
theorem keeps_writeUnit (bytes : ByteArray) :
    holds (page.writeUnit disk bytes).2 := by
  have flushed := page.keeps_flush writes start
  rw [writeUnit]
  split
  · exact start
  · dsimp only
    split <;> split
    · exact start
    · exact flushed
    · exact writes _ _ _ start
    · rw [page.file_flush disk]
      exact writes _ _ _ flushed

end Keeps

theorem file_writeUnit (page : PageFile) (disk : Disk) (bytes : ByteArray) :
    (page.writeUnit disk bytes).1.file = page.file := by
  have flushed := page.file_flush disk
  rw [writeUnit]
  split
  · rfl
  · dsimp only
    split <;> split
    · rfl
    · exact flushed
    · rfl
    · exact flushed

/-! ## What is written -/

/-- The file of a page is at a node, and holds as much as was written to it. -/
structure IsStored
    (page : PageFile)
    (disk : Disk)
    (index : Nat) : Prop where
  file : page.file = some index
  held : index < disk.nodes.size
  written : (disk.node index).content.bytes.size = page.written

/-- What the file at a node holds, and what is held back. -/
def text
    (page : PageFile)
    (disk : Disk)
    (index : Nat) : ByteArray :=
  (disk.node index).content.bytes ++ page.pending

section Stored

variable
  {page : PageFile}
  {disk : Disk}
  {index : Nat}
  (stored : page.IsStored disk index)

include stored

/-- Writing at the end of what was written appends to the file. -/
theorem node_writeAt (bytes : ByteArray) :
    ((disk.writeAt page.file page.written bytes).node index).content.bytes =
      (disk.node index).content.bytes ++ bytes := by
  rw [stored.file, Disk.writeAt, Disk.changeFile,
    disk.node_changeNode stored.held]
  dsimp only
  rw [← stored.written, Content.writeAt_end]

/-- Bytes put after what the file holds. -/
theorem isStored_writeAt (bytes pending : ByteArray) :
    IsStored
      { page with
        written := page.written + bytes.size
        pending := pending }
      (disk.writeAt page.file page.written bytes) index := by
  refine ⟨stored.file, ?_, ?_⟩
  · rw [stored.file, Disk.writeAt, Disk.changeFile, Disk.changeNode,
      Array.size_modify]
    exact stored.held
  · rw [node_writeAt stored, ByteArray.size_append, stored.written]

/-- After a flush, the page is where it was stored. -/
theorem isStored_flush : (page.flush disk).1.IsStored (page.flush disk).2 index := by
  rw [flush]
  split
  · exact stored
  · exact isStored_writeAt stored _ _

/-- After a flush the file holds everything. -/
theorem node_flush :
    ((page.flush disk).2.node index).content.bytes = page.text disk index := by
  rw [flush, text]
  split
  next empty =>
    have none : page.pending = ByteArray.empty :=
      ByteArray.size_eq_zero_iff.mp (beq_iff_eq.mp empty)
    rw [none, ByteArray.append_empty]
  next => exact node_writeAt stored _

/-- A flush changes where the text is kept, but not the text. -/
theorem text_flush :
    (page.flush disk).1.text (page.flush disk).2 index =
      page.text disk index := by
  rw [flush]
  split
  · rfl
  · rw [text, node_writeAt stored, ByteArray.append_empty, text]

omit stored in
/-- After a flush, nothing is held back. -/
theorem pending_flush (page : PageFile) (disk : Disk) :
    (page.flush disk).1.pending = ByteArray.empty := by
  rw [flush]
  split
  next empty => exact ByteArray.size_eq_zero_iff.mp (beq_iff_eq.mp empty)
  next => rfl

/-- A unit is put after the text. -/
theorem isStored_writeUnit (bytes : ByteArray) :
    (page.writeUnit disk bytes).1.IsStored (page.writeUnit disk bytes).2
        index ∧
      (page.writeUnit disk bytes).1.text (page.writeUnit disk bytes).2 index =
        page.text disk index ++ bytes := by
  rw [writeUnit]
  split
  · exact ⟨⟨stored.file, stored.held, stored.written⟩,
      ByteArray.append_assoc.symm⟩
  next large =>
    dsimp only
    generalize ready : (if page.pending.size + bytes.size ≤ capacity then
        (page, disk)
      else
        page.flush disk) = state
    obtain ⟨flushed, kept⟩ := state
    have same : flushed.IsStored kept index ∧
        flushed.text kept index = page.text disk index ∧
        (¬bytes.size < capacity → flushed.pending = ByteArray.empty) := by
      split at ready
      next fits =>
        cases ready
        refine ⟨stored, rfl, fun full => ByteArray.size_eq_zero_iff.mp ?_⟩
        omega
      next =>
        have flush := isStored_flush stored
        have text := text_flush stored
        have pending := pending_flush page disk
        rw [ready] at flush text pending
        exact ⟨flush, text, fun _ => pending⟩
    obtain ⟨flushedStored, sameText, emptied⟩ := same
    dsimp only
    split
    next =>
      refine ⟨⟨flushedStored.file, flushedStored.held, flushedStored.written⟩, ?_⟩
      rw [← sameText]
      exact ByteArray.append_assoc.symm
    next full =>
      refine ⟨isStored_writeAt flushedStored bytes flushed.pending, ?_⟩
      rw [text, node_writeAt flushedStored, emptied full, ByteArray.append_empty,
        ← sameText, text, emptied full, ByteArray.append_empty]

end Stored

end PageFile

/-! ## The page file of a session -/

namespace Session

variable (session : Session)

theorem compiled_flush : session.flush.compiled = session.compiled := by
  rw [flush]
  split <;> rfl

/-- The file that is open stays the same. -/
theorem file_writeUnits (units : List String) :
    (session.writeUnits units).page.map PageFile.file =
      session.page.map PageFile.file := by
  have written : ∀ state : PageFile × Disk,
      (units.foldl (fun state unit => state.1.writeUnit state.2 unit.toUTF8)
        state).1.file = state.1.file := by
    induction units with
    | nil => exact fun _ => rfl
    | cons first others inductionHypothesis =>
        exact fun state => (inductionHypothesis _).trans
          (PageFile.file_writeUnit _ _ _)
  rw [writeUnits]
  split
  next none => rw [none]
  next page found =>
    rw [found]
    exact congrArg some (written (page, session.disk))

section Keeps

variable
  {session}
  (holds : Disk → Prop)
  (writes : ∀ page, session.page = some page → ∀ disk offset bytes,
    holds disk → holds (disk.writeAt page.file offset bytes))
  (start : holds session.disk)

include writes start

/-- What holds whenever the page file is written holds after units are put. -/
theorem keeps_writeUnits (units : List String) :
    holds (session.writeUnits units).disk := by
  rw [writeUnits]
  split
  · exact start
  next page found =>
    have written : ∀ state : PageFile × Disk, state.1.file = page.file →
        holds state.2 →
        holds (units.foldl
          (fun state unit => state.1.writeUnit state.2 unit.toUTF8) state).2 := by
      induction units with
      | nil => exact fun _ _ holds => holds
      | cons first others inductionHypothesis =>
          intro state file holds
          refine inductionHypothesis _
            ((PageFile.file_writeUnit _ _ _).trans file) ?_
          refine PageFile.keeps_writeUnit _ (fun disk offset bytes => ?_) holds _
          rw [file]
          exact writes page found disk offset bytes
    exact written (page, session.disk) rfl start

/-- What holds whenever the page file is written holds after a flush. -/
theorem keeps_flush : holds session.flush.disk := by
  rw [flush]
  split
  · exact start
  next page found => exact page.keeps_flush (writes page found) start

end Keeps

/-- The units are put after the text of the page. -/
theorem text_writeUnits
    {session : Session}
    {page : PageFile}
    {index : Nat}
    (found : session.page = some page)
    (stored : page.IsStored session.disk index)
    (units : List String) :
    ∃ after, (session.writeUnits units).page = some after ∧
      after.IsStored (session.writeUnits units).disk index ∧
      after.text (session.writeUnits units).disk index =
        page.text session.disk index ++ (String.join units).toByteArray := by
  have written : ∀ state : PageFile × Disk, state.1.IsStored state.2 index →
      let after := units.foldl
        (fun state unit => state.1.writeUnit state.2 unit.toUTF8) state
      after.1.IsStored after.2 index ∧
        after.1.text after.2 index =
          state.1.text state.2 index ++ (String.join units).toByteArray := by
    induction units with
    | nil => exact fun _ stored => ⟨stored, ByteArray.append_empty.symm⟩
    | cons first others inductionHypothesis =>
        intro state stored
        obtain ⟨firstStored, firstText⟩ :=
          PageFile.isStored_writeUnit stored first.toUTF8
        obtain ⟨later, text⟩ := inductionHypothesis _ firstStored
        refine ⟨later, text.trans ?_⟩
        rw [firstText, String.join_cons, String.toByteArray_append,
          ByteArray.append_assoc]
        rfl
  obtain ⟨after, text⟩ := written (page, session.disk) stored
  rw [writeUnits, found]
  exact ⟨_, rfl, after, text⟩

end Session

end Page
end NotePress
