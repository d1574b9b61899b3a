import NotePress.Markup.Cursor
import NotePress.Markup.Parse

/-!
# The grammar as steps of a cursor

A cursor that looks ahead, reads tokens and opens and closes nodes writes down the
tree of a source from left to right, with no more than its place in the tokens and
the events so far. The rules here are those of the grammar as such steps: loops
that go on as long as the next token tells, around rules that read what starts with
it.

A rule has no result when a loop in it does not end, or when it closes a node that
is not open.
-/

namespace NotePress
namespace Markup
namespace Cursor

/-- The tokens that are not read yet. -/
def rest (cursor : Cursor) : List Token :=
  cursor.tokens.drop cursor.position

/-- Whether the line ends some places ahead. -/
def endsLine
    (cursor : Cursor)
    (distance : Nat) : Bool :=
  cursor.nth distance == .newline || cursor.nth distance == .endOfInput

/-- Write a node of a kind around what a rule writes. -/
def around
    (kind : Kind)
    (rule : Cursor → Option Cursor)
    (cursor : Cursor) : Option Cursor := do
  let inside ← rule cursor.openNode.2
  inside.closeNode? cursor.openNode.1 kind

/-- Read a number of tokens one by one, each under a kind that its own kind
tells. -/
def bumpEach
    (leaf : Kind → Kind)
    (cursor : Cursor) : Nat → Cursor
  | 0 => cursor
  | count + 1 => (cursor.bumpAs (leaf cursor.current)).bumpEach leaf count

/-- Read tokens one by one as long as their kinds pass a test. -/
def bumpWhile
    (test : Kind → Bool)
    (leaf : Kind → Kind)
    (cursor : Cursor) : Option Cursor :=
  if cursor.atEnd || !test cursor.current then
    some cursor
  else
    cursor.bumpAs (leaf cursor.current) |>.bumpWhile test leaf
partial_fixpoint

/-! ## Elements within a line -/

/-- How many tokens ahead of the one before some tokens the first token of a kind
is on the line. -/
def distance? (mark : Kind) : List Token → Option Nat
  | [] => none
  | first :: others =>
      if first.kind = .newline ∨ first.kind = .endOfInput then
        none
      else if first.kind = mark then
        some 1
      else
        (distance? mark others).map (· + 1)

/-- How far ahead the next delimiter of a kind is on the current line. -/
def closing?
    (cursor : Cursor)
    (mark : Kind) : Option Nat :=
  distance? mark cursor.rest.tail

/-- Whether the styling delimiter that comes next opens a span. -/
def mayOpen (cursor : Cursor) : Bool :=
  Inline.opensAfter cursor.current cursor.previous &&
    !(cursor.nth 1 == .whitespace || cursor.endsLine 1) &&
    (cursor.closing? cursor.current).isSome

/-- Write a span whose content is kept as it is, up to the next delimiter of the
same kind. -/
def rawSpan
    (kind : Kind)
    (cursor : Cursor) : Option Cursor :=
  match cursor.closing? cursor.current with
  | none => some cursor.bump
  | some distance =>
      cursor.around kind fun opened =>
        some (((opened.bumpAs .delimiter).bumpEach id (distance - 1)).bumpAs
          .delimiter)

/-- Whether the tokens after a left bracket make a checkbox. -/
def startsCheckbox (cursor : Cursor) : Bool :=
  Inline.isTick ⟨cursor.nth 1, cursor.nthText 1⟩ &&
    cursor.nth 2 == .rightBracket

/-- How many underscores there are directly after the next token. -/
def underscores (cursor : Cursor) : Nat :=
  (cursor.rest.tail.takeWhile (·.kind == .underscore)).length

/-- Whether the tokens after a left bracket make a textbox. -/
def startsTextbox (cursor : Cursor) : Bool :=
  0 < cursor.underscores &&
    cursor.nth (1 + cursor.underscores) == .rightBracket

/-- Write a checkbox, a textbox or a plain left bracket. -/
def box (cursor : Cursor) : Option Cursor :=
  if cursor.startsCheckbox then
    cursor.around .checkbox fun opened =>
      some ((opened.bumpAs .delimiter).bump.bumpAs .delimiter)
  else if cursor.startsTextbox then
    cursor.around .textbox fun opened =>
      some ((opened.bumpAs .delimiter).bumpEach (fun _ => .delimiter)
        (cursor.underscores + 1))
  else
    some cursor.bump

/-- Whether a parameter list goes on with a token of a kind. -/
def isParameter (kind : Kind) : Bool :=
  kind != .newline && kind != .rightBrace

/-- Write a parameter list. Without a right brace on the line it runs to the end
of the line. -/
def parameters : Cursor → Option Cursor :=
  around .parameters fun opened => do
    let inside ← (opened.bumpAs .delimiter).bumpWhile isParameter id
    if inside.isAt .rightBrace then
      some (inside.bumpAs .delimiter)
    else
      some inside

/-- Write a directive name with the parameter list after it, if there is one. -/
def hashtag : Cursor → Option Cursor :=
  around .hashtag fun opened =>
    if opened.bump.isAt .leftBrace then
      opened.bump.parameters
    else
      some opened.bump

/-- Write a mention of a person. -/
def mention : Cursor → Option Cursor :=
  around .mention fun opened => some opened.bump

/-- Write an element that is not a styled span. -/
def simple (cursor : Cursor) : Option Cursor :=
  match cursor.current with
  | .backtick => cursor.rawSpan .literal
  | .quote => cursor.rawSpan .quotation
  | .leftBracket => cursor.box
  | .hashtagName => cursor.hashtag
  | .mentionName => cursor.mention
  | _ => some cursor.bump

/-- Read the delimiter of a kind, if it comes next. -/
def closeDelimiter
    (mark : Kind)
    (cursor : Cursor) : Cursor :=
  if cursor.isAt mark then cursor.bumpAs .delimiter else cursor

mutual

/-- Write the element that starts with the next token. -/
def inlineElement (cursor : Cursor) : Option Cursor :=
  match cursor.current.style? with
  | some style =>
      if cursor.mayOpen then do
        let inside ← cursor.openNode.2.bumpAs .delimiter
          |>.inlineUntil (· == cursor.current)
        (inside.closeDelimiter cursor.current).closeNode? cursor.openNode.1
          style
      else
        some cursor.bump
  | none => cursor.simple
partial_fixpoint

/-- Write elements up to the end of the line or up to a token whose kind passes a
test. -/
def inlineUntil
    (stops : Kind → Bool)
    (cursor : Cursor) : Option Cursor :=
  if cursor.atEnd || cursor.isAt .newline || stops cursor.current then
    some cursor
  else do
    let next ← cursor |>.inlineElement
    next |>.inlineUntil stops
partial_fixpoint

end

/-- Write elements up to the end of the line. -/
def inlineUntilNewline (cursor : Cursor) : Option Cursor :=
  cursor.inlineUntil fun _ => false

/-! ## Lines -/

/-- Write the rest of the line, its ending included. -/
def restOfLine (cursor : Cursor) : Option Cursor := do
  let written ← cursor.inlineUntilNewline
  return (written.eat .newline).2

/-- Write a line that is one node, whose marker is read in a way of its own. -/
def marked
    (kind : Kind)
    (marker : Cursor → Cursor) : Cursor → Option Cursor :=
  around kind fun opened => ((marker opened).eat .whitespace).2.restOfLine

/-- Write the cell of a table row. -/
def tableCell : Cursor → Option Cursor :=
  around .tableCell (inlineUntil (· == .pipe))

/-- Write the cells of a table row. Blanks between the last pipe and the end of
the line are no cell. -/
def cells (cursor : Cursor) : Option Cursor :=
  if cursor.atEnd || cursor.isAt .newline then
    some cursor
  else if cursor.isAt .whitespace && cursor.endsLine 1 then
    some cursor.bump
  else do
    let cell ← cursor.tableCell
    cell.closeDelimiter .pipe |>.cells
partial_fixpoint

/-- Write a table row. -/
def tableRow : Cursor → Option Cursor :=
  around .tableRow fun opened => do
    let parts ← (opened.bumpAs .delimiter).cells
    return (parts.eat .newline).2

/-- Write the rows of a table. -/
def tableRows (cursor : Cursor) : Option Cursor :=
  if cursor.isAt .pipe then do
    let row ← cursor.tableRow
    row |>.tableRows
  else
    some cursor
partial_fixpoint

/-- Whether three backticks come next. -/
def atFence (cursor : Cursor) : Bool :=
  cursor.nth 0 == .backtick && cursor.nth 1 == .backtick &&
    cursor.nth 2 == .backtick

/-- Read the current line token by token, its ending included. -/
def bumpLine
    (leaf : Kind → Kind)
    (cursor : Cursor) : Option Cursor := do
  let read ← cursor.bumpWhile (· != .newline) leaf
  return (read.eat .newline).2

/-- Write the lines of a code block after its first, up to and with the closing
fence. -/
def codeLines (cursor : Cursor) : Option Cursor :=
  if cursor.atEnd then
    some cursor
  else if cursor.atFence then
    (cursor.bumpMany 3 .delimiter).bumpLine fun _ => .delimiter
  else do
    let next ← cursor.bumpLine id
    next |>.codeLines
partial_fixpoint

/-- Write a code block. -/
def codeBlock : Cursor → Option Cursor :=
  around .codeBlock fun opened => do
    let first ← (opened.bumpMany 3 .delimiter).bumpLine id
    first.codeLines

/-- Write the line that starts with the next token, and the lines after it that
belong to the same table or code block. -/
def line (cursor : Cursor) : Option Cursor :=
  match cursor.current with
  | .hash =>
      match Line.headingLevel? cursor.rest with
      | some level =>
          cursor.marked .heading (·.bumpMany level .headingMarker)
      | none => cursor.restOfLine
  | .dash | .star =>
      if cursor.nth 1 == .whitespace then
        cursor.marked .unorderedItem (·.bumpAs .listMarker)
      else
        cursor.restOfLine
  | .text =>
      if Line.isOrderedMarker (cursor.nthText 0).toList &&
          cursor.nth 1 == .whitespace then
        cursor.marked .orderedItem (·.bumpAs .orderedMarker)
      else
        cursor.restOfLine
  | .pipe => cursor.around .table tableRows
  | .backtick =>
      if cursor.atFence then cursor.codeBlock else cursor.restOfLine
  | _ => cursor.restOfLine

/-! ## Paragraphs and whole sources -/

/-- Whether a line without visible characters comes next. -/
def atBlankLine (cursor : Cursor) : Bool :=
  cursor.isAt .newline || cursor.isAt .whitespace && cursor.endsLine 1

/-- Write the lines of a paragraph. -/
def paragraphLines (cursor : Cursor) : Option Cursor := do
  let next ← cursor.line
  if next.atEnd || next.atBlankLine then
    some next
  else
    next |>.paragraphLines
partial_fixpoint

/-- Write a paragraph. -/
def paragraph : Cursor → Option Cursor :=
  around .paragraph paragraphLines

/-- Read a blank line. -/
def blankLine (cursor : Cursor) : Cursor :=
  ((cursor.eat .whitespace).2.eat .newline).2

/-- Write paragraphs and blank lines up to the end. -/
def sections (cursor : Cursor) : Option Cursor :=
  if cursor.atEnd then
    some cursor
  else if cursor.atBlankLine then
    cursor.blankLine |>.sections
  else do
    let next ← cursor.paragraph
    next |>.sections
partial_fixpoint

/-- Write a whole source. -/
def root : Cursor → Option Cursor :=
  around .root sections

end Cursor
end Markup
end NotePress
