import NotePress.Document.Reading

/-!
# What a reading that succeeds is made of

When a node, or elements one after the other, are read without a malformation, so is
everything inside them, and what is read is put together from what was read inside.
-/

namespace NotePress
namespace Document
namespace Reading

open Markup

/-- A wrapped reading that succeeds wraps one that does. -/
theorem ok_of_map
    {result : Except Malformation α}
    {function : α → β}
    (read : result.map function = .ok value) :
    ∃ inner, result = .ok inner ∧ function inner = value := by
  cases result with
  | error malformation => cases read
  | ok inner =>
      cases read
      exact ⟨inner, rfl, rfl⟩

/-- A heading that is read has a level, and the trimmed blocks of its children. -/
theorem ok_of_heading (read : blockOf .heading children = .ok block) :
    ∃ level blocks, headingLevel children = .ok level ∧
      blocksOf "" children = .ok blocks ∧
      block = .heading level (trimBlocks blocks) := by
  rw [blockOf] at read
  split at read
  · cases read
  · rename_i level readLevel
    split at read
    · cases read
    · rename_i blocks readBlocks
      cases read
      exact ⟨level, blocks, readLevel, readBlocks, rfl⟩

/-- An ordered item that is read has a number, and the trimmed blocks of its
children. -/
theorem ok_of_orderedItem (read : blockOf .orderedItem children = .ok block) :
    ∃ number blocks, blocksOf "" children = .ok blocks ∧
      block = .orderedItem number (trimBlocks blocks) := by
  rw [blockOf] at read
  split at read
  · cases read
  · rename_i number readNumber
    split at read
    · cases read
    · rename_i blocks readBlocks
      cases read
      exact ⟨number, blocks, readBlocks, rfl⟩

/-- A node among elements that are read is one block, after the text gathered before
it. -/
theorem ok_of_blocksOf
    (read : blocksOf text (.node kind children :: others) = .ok blocks) :
    ∃ block later, blockOf kind children = .ok block ∧
      blocksOf "" others = .ok later ∧
      blocks = withText text (block :: later) := by
  rw [blocksOf] at read
  split at read
  · cases read
  · rename_i block readBlock
    split at read
    · cases read
    · rename_i later readOthers
      cases read
      exact ⟨block, later, readBlock, readOthers, rfl⟩

theorem ok_of_rowsOf
    (read : rowsOf (.node .tableRow cells :: others) = .ok rows) :
    ∃ row later, cellsOf cells = .ok row ∧ rowsOf others = .ok later ∧
      rows = row :: later := by
  rw [rowsOf, if_pos rfl] at read
  split at read
  · cases read
  · rename_i row readCells
    obtain ⟨later, readOthers, rfl⟩ := ok_of_map read
    exact ⟨row, later, readCells, readOthers, rfl⟩

/-- A cell that is read holds the trimmed blocks of its children. -/
theorem ok_of_cellsOf
    (read : cellsOf (.node .tableCell children :: others) = .ok cells) :
    ∃ blocks later, blocksOf "" children = .ok blocks ∧
      cellsOf others = .ok later ∧ cells = trimBlocks blocks :: later := by
  rw [cellsOf, if_pos rfl] at read
  split at read
  · cases read
  · rename_i blocks readBlocks
    obtain ⟨later, readOthers, rfl⟩ := ok_of_map read
    exact ⟨blocks, later, readBlocks, readOthers, rfl⟩

/-- A paragraph that is read holds the trimmed blocks of its children. -/
theorem ok_of_paragraphsOf
    (read : paragraphsOf (.node .paragraph children :: others) = .ok document) :
    ∃ blocks later, blocksOf "" children = .ok blocks ∧
      paragraphsOf others = .ok later ∧
      document = trimBlocks blocks :: later := by
  rw [paragraphsOf, if_pos rfl] at read
  split at read
  · cases read
  · rename_i blocks readBlocks
    obtain ⟨later, readOthers, rfl⟩ := ok_of_map read
    exact ⟨blocks, later, readBlocks, readOthers, rfl⟩

end Reading
end Document
end NotePress
