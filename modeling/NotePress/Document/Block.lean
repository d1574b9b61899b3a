import NotePress.Document.Hashtag
import NotePress.Document.Quotation

/-!
# The blocks of a document

A document is a list of paragraphs and a paragraph a list of blocks. Blocks hold
content only: the characters that marked it up are gone.
-/

namespace NotePress
namespace Document

/-- How a span of text is set off. -/
inductive Style
  | bold
  | italics
  | underline
  | strikeout
  deriving DecidableEq, Repr, Inhabited

/-- A listing. `command` names the interpreter that runs it; an empty one is not
run. -/
structure CodeBlock where
  command : String
  lines : List String
  deriving DecidableEq, Repr, Inhabited

/-- The program of a code block as one text. -/
def CodeBlock.code (block : CodeBlock) : String :=
  Text.joinLines block.lines

/-- A piece of content. -/
inductive Block
  | text (text : String)
  | heading (level : Nat) (children : List Block)
  | styled (style : Style) (children : List Block)
  | literal (text : String)
  | codeBlock (code : CodeBlock)
  | checkbox (checked : Bool)
  | textbox
  | quotation (quotation : Quotation)
  | hashtag (hashtag : Hashtag)
  | mention (name : String)
  | orderedItem (ordinal : Nat) (children : List Block)
  | unorderedItem (children : List Block)
  | table (rows : List (List (List Block)))
  deriving Repr, Inhabited

end Document

/-- The blocks of one paragraph. -/
abbrev Paragraph := List Document.Block

/-- The paragraphs of one document. -/
abbrev Document := List Paragraph

end NotePress
