/-!
# Lines of a text

A line ends at a line feed, and one carriage return directly before that line
feed belongs to the ending. What follows the last line feed is a line of its own
when it is not empty; its carriage returns are kept.
-/

namespace NotePress
namespace Text

/-- The lines of a list of characters, without their endings. -/
def splitLines : List Char → List (List Char)
  | [] => []
  | '\n' :: rest => [] :: splitLines rest
  | '\r' :: '\n' :: rest => [] :: splitLines rest
  | character :: rest =>
      match splitLines rest with
      | [] => [[character]]
      | line :: others => (character :: line) :: others

/-- The lines of a text, without their endings. -/
def lines (text : String) : List String :=
  (splitLines text.toList).map String.ofList

/-- Lines put under one another, with a line feed between neighbours. -/
def joinLines (lines : List String) : String :=
  "\n".intercalate lines

/-- The parts of a list between the elements equal to a separator. There is
always at least one part. -/
def splitAt
    [BEq α]
    (separator : α) : List α → List (List α)
  | [] => [[]]
  | first :: others =>
      if first == separator then
        [] :: splitAt separator others
      else
        match splitAt separator others with
        | [] => [[first]]
        | part :: parts => (first :: part) :: parts

end Text
end NotePress
