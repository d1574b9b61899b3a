/-!
# Kinds of tokens and nodes

One enumeration names everything a syntax tree is made of. The first kinds are
those the lexer tells apart; a few more say what a token turned out to mean
(`headingMarker`, `delimiter`); the rest name the composite nodes.
-/

namespace NotePress
namespace Markup

/-- What a token or a node of a syntax tree is. -/
inductive Kind
  | whitespace
  | newline
  | text
  | hash
  | hashtagName
  | mentionName
  | star
  | slash
  | underscore
  | dash
  | backtick
  | quote
  | leftBrace
  | rightBrace
  | pipe
  | leftBracket
  | rightBracket
  | headingMarker
  | listMarker
  | orderedMarker
  | delimiter
  | endOfInput
  | root
  | paragraph
  | heading
  | bold
  | italics
  | underline
  | strikeout
  | literal
  | codeBlock
  | checkbox
  | textbox
  | quotation
  | hashtag
  | parameters
  | mention
  | orderedItem
  | unorderedItem
  | table
  | tableRow
  | tableCell
  | malformed
  deriving DecidableEq, Repr, Inhabited

namespace Kind

/-- Every kind, tokens first. -/
def all : List Kind :=
  [whitespace, newline, text, hash, hashtagName, mentionName, star, slash,
    underscore, dash, backtick, quote, leftBrace, rightBrace, pipe, leftBracket,
    rightBracket, headingMarker, listMarker, orderedMarker, delimiter,
    endOfInput, root, paragraph, heading, bold, italics, underline, strikeout,
    literal, codeBlock, checkbox, textbox, quotation, hashtag, parameters,
    mention, orderedItem, unorderedItem, table, tableRow, tableCell, malformed]

/-- The written name of a kind. -/
def name : Kind → String
  | whitespace => "WHITESPACE"
  | newline => "NEWLINE"
  | text => "TEXT"
  | hash => "HASH"
  | hashtagName => "HASHTAG_NAME"
  | mentionName => "MENTION_NAME"
  | star => "STAR"
  | slash => "SLASH"
  | underscore => "UNDERSCORE"
  | dash => "DASH"
  | backtick => "BACKTICK"
  | quote => "QUOTE"
  | leftBrace => "LBRACE"
  | rightBrace => "RBRACE"
  | pipe => "PIPE"
  | leftBracket => "LBRACKET"
  | rightBracket => "RBRACKET"
  | headingMarker => "HEADING_MARKER"
  | listMarker => "LIST_MARKER"
  | orderedMarker => "ORDERED_MARKER"
  | delimiter => "DELIMITER"
  | endOfInput => "EOF"
  | root => "ROOT"
  | paragraph => "PARAGRAPH"
  | heading => "HEADING"
  | bold => "BOLD"
  | italics => "ITALICS"
  | underline => "UNDERLINE"
  | strikeout => "STRIKEOUT"
  | literal => "LITERAL"
  | codeBlock => "CODE_BLOCK"
  | checkbox => "CHECKBOX"
  | textbox => "TEXTBOX"
  | quotation => "QUOTATION"
  | hashtag => "HASHTAG"
  | parameters => "PARAMETERS"
  | mention => "MENTION"
  | orderedItem => "ORDERED_ITEM"
  | unorderedItem => "UNORDERED_ITEM"
  | table => "TABLE"
  | tableRow => "TABLE_ROW"
  | tableCell => "TABLE_CELL"
  | malformed => "ERROR"

/-- The kind with a given written name. -/
def ofName? (name : String) : Option Kind :=
  all.find? fun kind => kind.name == name

/-- Whether tokens of this kind only carry markup and never content. -/
def isMarkup : Kind → Bool
  | headingMarker | listMarker | orderedMarker | delimiter => true
  | _ => false

/-- The styled span that a delimiter opens. -/
def style? : Kind → Option Kind
  | star => some bold
  | slash => some italics
  | underscore => some underline
  | dash => some strikeout
  | _ => none

end Kind

end Markup
end NotePress
