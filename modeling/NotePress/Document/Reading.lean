import NotePress.Document.Block
import NotePress.Markup.Parse

/-!
# Reading documents

Turns a syntax tree into a document. Every node becomes one block, markup leaves
vanish, and the remaining leaves between two nodes become one text. Blanks at the
ends of a paragraph, heading, item or cell are dropped.

Two things can be malformed: a directive whose parameter list is not closed or is
empty, and a marker whose number is too large. The first one in source order is
reported.
-/

namespace NotePress
namespace Document

/-- The markers whose text is read as a number. -/
inductive MarkerRole
  | heading
  | orderedItem
  deriving DecidableEq, Repr, Inhabited

/-- The name of a marker in messages. -/
def MarkerRole.name : MarkerRole → String
  | heading => "heading"
  | orderedItem => "ordered item"

/-- Why a source is no document. -/
inductive Malformation
  | directive (text : String)
  | marker (role : MarkerRole) (text : String)
  deriving DecidableEq, Repr, Inhabited

/-- The message about a malformation. A marker is made of hashes, digits,
brackets and points only, so it is quoted without escapes. -/
def Malformation.message : Malformation → String
  | directive text => "Malformed directive: " ++ text
  | marker role text =>
      "Malformed " ++ role.name ++ " marker: \"" ++ text ++ "\""

namespace Reading

open Markup

/-- The greatest number of an ordered item. -/
def maximalOrdinal : Nat := 4294967295

/-- The number that decimal digits write. -/
def decimalValue (digits : List Char) : Nat :=
  digits.foldl (fun value digit => 10 * value + (digit.toNat - '0'.toNat)) 0

/-- The text put in front of blocks, unless it is empty. -/
def withText
    (text : String)
    (blocks : List Block) : List Block :=
  if text.isEmpty then blocks else .text text :: blocks

/-- Blocks whose first one, if it is a text, starts with no blank. -/
def trimFirst : List Block → List Block
  | .text text :: others => withText (Text.trimStart text) others
  | blocks => blocks

/-- Blocks whose last one, if it is a text, ends with no blank. -/
def trimLast : List Block → List Block
  | [] => []
  | [.text text] => withText (Text.trimEnd text) []
  | [block] => [block]
  | first :: second :: others => first :: trimLast (second :: others)

/-- Blocks without the blanks at their ends. -/
def trimBlocks (blocks : List Block) : List Block :=
  trimFirst (trimLast blocks)

/-- The text of the first leaf of a kind directly below a node; empty when there
is none. -/
def markerText
    (kind : Kind)
    (children : List Element) : String :=
  match children with
  | [] => ""
  | .leaf leafKind text :: others =>
      if leafKind = kind then text else markerText kind others
  | .node _ _ :: others => markerText kind others

/-- The level of a heading: the length of its marker. -/
def headingLevel (children : List Element) : Except Malformation Nat :=
  let marker := markerText .headingMarker children
  let hashes := marker.toList
  if hashes.isEmpty || !hashes.all (· == '#') ||
      Line.maximalLevel < hashes.length then
    .error (.marker .heading marker)
  else
    .ok hashes.length

/-- Whether a character may surround the number of an ordered marker. -/
def isOrdinalEdge (character : Char) : Bool :=
  character == '(' || character == ')' || character == '.' || character == ' '

/-- The number of an ordered item: `(3).`, `3).` and `3.` all give 3. -/
def ordinal (children : List Element) : Except Malformation Nat :=
  let marker := markerText .orderedMarker children
  let digits := Text.dropEnds isOrdinalEdge marker.toList
  if digits.isEmpty || !digits.all (·.isDigit) ||
      maximalOrdinal < decimalValue digits then
    .error (.marker .orderedItem marker)
  else
    .ok (decimalValue digits)

/-- The leaves between the first and the second delimiter directly below a
node. -/
def betweenFences (children : List Element) : List Token :=
  let leaves := children.filterMap fun
    | .leaf kind text => some ⟨kind, text⟩
    | .node _ _ => none
  let isContent := fun token : Token => token.kind != .delimiter
  match leaves.dropWhile isContent with
  | [] => leaves
  | _ :: rest => leaves.takeWhile isContent ++ rest.takeWhile isContent

/-- The code block of a node: the first line of its text is the command. -/
def codeBlock (children : List Element) : CodeBlock :=
  match Text.lines (String.join ((betweenFences children).map Token.text)) with
  | [] => ⟨"", []⟩
  | command :: lines => ⟨Text.trim command, lines.map Text.trimEnd⟩

/-- Whether the content of a checkbox ticks it. -/
def isTicked (content : String) : Bool :=
  let visible := Text.trim content
  visible == "x" || visible == "X"

/-- The hashtag of a node. -/
def hashtag (text : String) : Except Malformation Hashtag :=
  match Hashtag.ofSource? text.toList with
  | some hashtag => .ok hashtag
  | none => .error (.directive text)

/-- The name of a mention. -/
def mentionedName (text : String) : String :=
  match text.toList with
  | '@' :: name => String.ofList name
  | _ => text

theorem size_others_lt (first : Element) (others : List Element) :
    2 * sizeOf others < 2 * sizeOf (first :: others) := by
  rw [List.cons.sizeOf_spec]
  omega

theorem size_children_lt
    (kind : Kind)
    (children others : List Element) :
    2 * sizeOf children + 1 <
      2 * sizeOf (Element.node kind children :: others) := by
  rw [List.cons.sizeOf_spec, Element.node.sizeOf_spec]
  omega

mutual

/-- The block of a node. -/
def blockOf
    (kind : Kind)
    (children : List Element) : Except Malformation Block :=
  match kind with
  | .heading =>
      match headingLevel children with
      | .error malformation => .error malformation
      | .ok level =>
          match blocksOf "" children with
          | .error malformation => .error malformation
          | .ok blocks => .ok (.heading level (trimBlocks blocks))
  | .bold => (blocksOf "" children).map (.styled .bold)
  | .italics => (blocksOf "" children).map (.styled .italics)
  | .underline => (blocksOf "" children).map (.styled .underline)
  | .strikeout => (blocksOf "" children).map (.styled .strikeout)
  | .literal => .ok (.literal (Element.node kind children).content)
  | .codeBlock => .ok (.codeBlock (codeBlock children))
  | .checkbox =>
      .ok (.checkbox (isTicked (Element.node kind children).content))
  | .textbox => .ok .textbox
  | .quotation =>
      .ok (.quotation (Quotation.ofRaw (Element.node kind children).content))
  | .hashtag => (hashtag (Element.node kind children).text).map .hashtag
  | .mention => .ok (.mention (mentionedName (Element.node kind children).text))
  | .orderedItem =>
      match ordinal children with
      | .error malformation => .error malformation
      | .ok number =>
          match blocksOf "" children with
          | .error malformation => .error malformation
          | .ok blocks => .ok (.orderedItem number (trimBlocks blocks))
  | .unorderedItem =>
      (blocksOf "" children).map fun blocks =>
        .unorderedItem (trimBlocks blocks)
  | .table => (rowsOf children).map .table
  | _ => .ok (.text (Element.node kind children).text)
termination_by 2 * sizeOf children + 1
decreasing_by
  all_goals exact Nat.lt_succ_self _

/-- The blocks of neighbouring elements after a text that is not a block yet. -/
def blocksOf
    (text : String) : List Element → Except Malformation (List Block)
  | [] => .ok (withText text [])
  | .leaf kind more :: others =>
      blocksOf (if kind.isMarkup then text else text ++ more) others
  | .node kind children :: others =>
      match blockOf kind children with
      | .error malformation => .error malformation
      | .ok block =>
          match blocksOf "" others with
          | .error malformation => .error malformation
          | .ok blocks => .ok (withText text (block :: blocks))
termination_by elements => 2 * sizeOf elements
decreasing_by
  · exact size_others_lt _ others
  · exact size_children_lt kind children others
  · exact size_others_lt _ others

/-- The rows among the elements of a table. -/
def rowsOf : List Element → Except Malformation (List (List (List Block)))
  | [] => .ok []
  | .leaf _ _ :: others => rowsOf others
  | .node kind children :: others =>
      if kind = .tableRow then
        match cellsOf children with
        | .error malformation => .error malformation
        | .ok row => (rowsOf others).map fun rows => row :: rows
      else
        rowsOf others
termination_by elements => 2 * sizeOf elements
decreasing_by
  · exact size_others_lt _ others
  · exact Nat.lt_of_succ_lt (size_children_lt kind children others)
  · exact size_others_lt _ others
  · exact size_others_lt _ others

/-- The cells among the elements of a row. -/
def cellsOf : List Element → Except Malformation (List (List Block))
  | [] => .ok []
  | .leaf _ _ :: others => cellsOf others
  | .node kind children :: others =>
      if kind = .tableCell then
        match blocksOf "" children with
        | .error malformation => .error malformation
        | .ok cell => (cellsOf others).map fun cells => trimBlocks cell :: cells
      else
        cellsOf others
termination_by elements => 2 * sizeOf elements
decreasing_by
  · exact size_others_lt _ others
  · exact Nat.lt_of_succ_lt (size_children_lt kind children others)
  · exact size_others_lt _ others
  · exact size_others_lt _ others

end

/-- The paragraphs among the elements of a source. -/
def paragraphsOf : List Element → Except Malformation Document
  | [] => .ok []
  | .leaf _ _ :: others => paragraphsOf others
  | .node kind children :: others =>
      if kind = .paragraph then
        match blocksOf "" children with
        | .error malformation => .error malformation
        | .ok blocks =>
            (paragraphsOf others).map fun paragraphs =>
              trimBlocks blocks :: paragraphs
      else
        paragraphsOf others

end Reading

/-- The document that a syntax tree holds. -/
def ofTree (tree : Markup.Element) : Except Malformation Document :=
  Reading.paragraphsOf tree.children

/-- The document that a source text holds. -/
def ofSource (source : String) : Except Malformation Document :=
  ofTree (Markup.parse source)

end Document
end NotePress
