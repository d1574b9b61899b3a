import NotePress.Html.Escape

/-!
# Pieces of a page

A page is written as a sequence of pieces: tags and texts. A piece says what it
is; how it is spelled is decided here alone.

A piece is spelled in fragments. Fixed fragments are the same in every page and
grow together when they follow one another; a given fragment, which holds a text
from a document, always stands alone. Whoever writes a page piece by piece sees
the fragments as units.
-/

namespace NotePress
namespace Html

/-- The elements of a page that have content. -/
inductive Tag
  | html
  | head
  | body
  | paragraph
  | heading (level : Nat)
  | bold
  | italics
  | underline
  | strikeout
  | code
  | preformatted
  | orderedList
  | unorderedList
  | item
  | table
  | row
  | cell
  | blockquote
  | span
  | anchor
  deriving DecidableEq, Repr, Inhabited

/-- The elements of a page without content. -/
inductive VoidTag
  | link
  | input
  | image
  deriving DecidableEq, Repr, Inhabited

/-- An attribute of a tag: one whose value is the same in every page, one whose
value is a text of the document, or one without a value. -/
inductive Attribute
  | fixed (name value : String)
  | given (name value : String)
  | flag (name : String)
  deriving DecidableEq, Repr, Inhabited

/-- A piece of a page. -/
inductive Piece
  | opening (tag : Tag) (attributes : List Attribute)
  | closing (tag : Tag)
  | void (tag : VoidTag) (attributes : List Attribute)
  /-- A text of the document, written with entities. -/
  | text (text : String)
  /-- A text that is the same in every page. -/
  | constant (text : String)
  /-- A text of the document, written as it is. -/
  | raw (text : String)
  deriving DecidableEq, Repr, Inhabited

/-- A stretch of written text. -/
inductive Fragment
  | fixed (text : String)
  | given (text : String)
  deriving DecidableEq, Repr, Inhabited

/-- The text of a fragment. -/
def Fragment.text : Fragment → String
  | fixed text => text
  | given text => text

/-- The name of a tag. -/
def Tag.name : Tag → List Fragment
  | html => [.fixed "html"]
  | head => [.fixed "head"]
  | body => [.fixed "body"]
  | paragraph => [.fixed "p"]
  | heading level => [.fixed "h", .given (toString level)]
  | bold => [.given "b"]
  | italics => [.given "i"]
  | underline => [.given "u"]
  | strikeout => [.given "s"]
  | code => [.fixed "code"]
  | preformatted => [.fixed "pre"]
  | orderedList => [.fixed "ol"]
  | unorderedList => [.fixed "ul"]
  | item => [.fixed "li"]
  | table => [.fixed "table"]
  | row => [.fixed "tr"]
  | cell => [.fixed "td"]
  | blockquote => [.fixed "blockquote"]
  | span => [.fixed "span"]
  | anchor => [.fixed "a"]

/-- The name of a tag without content. -/
def VoidTag.name : VoidTag → String
  | link => "link"
  | input => "input"
  | image => "img"

/-- What stands before the closing bracket of a tag without content. -/
def VoidTag.ending : VoidTag → String
  | link => ">"
  | input => ">"
  | image => " />"

/-- The spelling of an attribute after the blank before it. -/
def Attribute.fragments : Attribute → List Fragment
  | fixed name value => [.fixed (" " ++ name ++ "=\"" ++ value ++ "\"")]
  | given name value =>
      [.fixed (" " ++ name ++ "=\""), .given (escapeQuoted value), .fixed "\""]
  | flag name => [.fixed (" " ++ name)]

/-- The spelling of a piece. -/
def Piece.fragments : Piece → List Fragment
  | opening tag attributes =>
      .fixed "<" :: tag.name ++ attributes.flatMap Attribute.fragments ++
        [.fixed ">"]
  | closing tag => .fixed "</" :: tag.name ++ [.fixed ">"]
  | void tag attributes =>
      .fixed ("<" ++ tag.name) :: attributes.flatMap Attribute.fragments ++
        [.fixed tag.ending]
  | .text content => [.given (escape content)]
  | .constant content => [.fixed content]
  | .raw content => [.given content]

/-- The written form of a piece. -/
def Piece.print (piece : Piece) : String :=
  String.join (piece.fragments.map Fragment.text)

/-- The written form of pieces. -/
def print (pieces : List Piece) : String :=
  String.join (pieces.map Piece.print)

/-- The texts of fragments, with neighbouring fixed ones grown together. -/
def unitsOf : List Fragment → List String
  | [] => []
  | .given text :: others => text :: unitsOf others
  | .fixed text :: others =>
      match others, unitsOf others with
      | .fixed _ :: _, unit :: units => (text ++ unit) :: units
      | _, units => text :: units

/-- The units in which pieces that are written at once are written. -/
def units (pieces : List Piece) : List String :=
  unitsOf (pieces.flatMap Piece.fragments)

end Html
end NotePress
