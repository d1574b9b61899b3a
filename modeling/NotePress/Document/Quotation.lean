import NotePress.Text.Blank

/-!
# Quotations

A quotation is a text with, optionally, its author. In raw form the author stands
after the last two dashes.
-/

namespace NotePress
namespace Document

/-- A quoted text and who said it. -/
structure Quotation where
  text : String
  author : Option String
  deriving DecidableEq, Repr, Inhabited

namespace Quotation

/-- The characters dropped around a raw quotation. -/
def isEdge (character : Char) : Bool :=
  character == ' ' || character == '\t' || character == '\r' ||
    character == '\n' || character == '"'

/-- What stands before and after the last two dashes of a text. In a longer run
of dashes these are the last two of the run. -/
def splitLastDashes : List Char → Option (List Char × List Char)
  | [] => none
  | first :: others =>
      match splitLastDashes others with
      | some (before, after) => some (first :: before, after)
      | none =>
          match first, others with
          | '-', '-' :: after => some ([], after)
          | _, _ => none

/-- The quotation that a raw text stands for. An author without visible
characters is no author. -/
def ofRaw (raw : String) : Quotation :=
  let trimmed := Text.dropEnds isEdge raw.toList
  match splitLastDashes trimmed with
  | none => ⟨String.ofList trimmed, none⟩
  | some (before, after) =>
      let author := Text.dropEnds Text.isBlank after
      ⟨String.ofList (Text.dropTrailing Text.isBlank before),
        if author.isEmpty then none else some (String.ofList author)⟩

end Quotation

end Document
end NotePress
