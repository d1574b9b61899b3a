import NotePress.Html.Piece

/-!
# Reading a page back

A reader cuts a page at its tags and turns entities back into characters. It
takes an angle bracket for nothing but the bracket of a tag, and an ampersand for
nothing but the start of an entity; what is not written so is refused.
-/

namespace NotePress
namespace Html

/-- What a reader finds in a page: a character of its text, or a tag, as it is
written between its brackets. -/
inductive Sign
  | character (character : Char)
  | tag (inside : List Char)
  deriving DecidableEq, Repr

/-! ## The reader -/

/-- Where in a page a reader is. -/
inductive Place
  | text
  | entity (name : List Char)
  | tag (inside : List Char)

/-- The character that an entity stands for. -/
def entity? (name : List Char) : Option Char :=
  if name = "amp".toList then some '&'
  else if name = "lt".toList then some '<'
  else if name = "gt".toList then some '>'
  else if name = "quot".toList then some '"'
  else none

/-- The signs in what is left of a page. -/
def signsFrom (place : Place) (written : List Char) : Option (List Sign) :=
  match place, written with
  | .text, [] => some []
  | .text, first :: rest =>
      if first = '<' then
        signsFrom (.tag []) rest
      else if first = '&' then
        signsFrom (.entity []) rest
      else if first = '>' then
        none
      else
        (signsFrom .text rest).map (.character first :: ·)
  | .entity _, [] => none
  | .entity name, first :: rest =>
      if first = ';' then
        match entity? name with
        | some character =>
            (signsFrom .text rest).map (.character character :: ·)
        | none => none
      else
        signsFrom (.entity (name ++ [first])) rest
  | .tag _, [] => none
  | .tag inside, first :: rest =>
      if first = '>' then
        (signsFrom .text rest).map (.tag inside :: ·)
      else if first = '<' then
        none
      else
        signsFrom (.tag (inside ++ [first])) rest

/-- The signs of a page. -/
def signs? (written : String) : Option (List Sign) :=
  signsFrom .text written.toList

/-- The character that a sign is, unless it is a tag. -/
def Sign.character? : Sign → Option Char
  | character single => some single
  | tag _ => none

/-- The text that a written text without tags stands for. -/
def unescape? (written : List Char) : Option String :=
  (signsFrom .text written).bind fun signs =>
    (signs.mapM Sign.character?).map String.ofList

/-! ## Inside a tag -/

/-- Whether a tag closes an element. -/
def isClosing (inside : List Char) : Bool :=
  inside.head? == some '/'

/-- The name in a tag. -/
def nameOf (inside : List Char) : String :=
  String.ofList
    ((if isClosing inside then inside.tail else inside).takeWhile (· != ' '))

/-- Where in the attributes of a tag a reader is. -/
inductive AttributePlace
  | between
  | name (name : List Char)
  | quote (name : List Char)
  | value (name value : List Char)

/-- The attributes in what is left of a tag: their names, and the values of those
that have one. A lone slash at the end is no attribute. -/
def attributesFrom
    (place : AttributePlace)
    (written : List Char) : Option (List (String × Option String)) :=
  match place, written with
  | .between, [] => some []
  | .between, first :: rest =>
      if first = ' ' then attributesFrom (.name []) rest else none
  | .name name, [] =>
      if name = ['/'] then some [] else some [(String.ofList name, none)]
  | .name name, first :: rest =>
      if first = ' ' then
        (attributesFrom (.name []) rest).map ((String.ofList name, none) :: ·)
      else if first = '=' then
        attributesFrom (.quote name) rest
      else
        attributesFrom (.name (name ++ [first])) rest
  | .quote _, [] => none
  | .quote name, first :: rest =>
      if first = '"' then attributesFrom (.value name []) rest else none
  | .value _ _, [] => none
  | .value name value, first :: rest =>
      if first = '"' then
        (unescape? value).bind fun value =>
          (attributesFrom .between rest).map
            ((String.ofList name, some value) :: ·)
      else
        attributesFrom (.value name (value ++ [first])) rest

/-- The attributes of a tag. -/
def attributesOf?
    (inside : List Char) : Option (List (String × Option String)) :=
  attributesFrom .between (inside.dropWhile (· != ' '))

/-! ## Open elements -/

/-- The names of the elements that have no content. -/
def voidNames : List String := ["link", "input", "img"]

/-- The names of the elements that are open after some signs, innermost first,
given those that were open before. Refused is a closing tag that does not match
the innermost open element. -/
def openAfter (opened : List String) : List Sign → Option (List String)
  | [] => some opened
  | .character _ :: others => openAfter opened others
  | .tag inside :: others =>
      if isClosing inside then
        match opened with
        | [] => none
        | innermost :: outer =>
            if nameOf inside = innermost then openAfter outer others else none
      else if nameOf inside ∈ voidNames then
        openAfter opened others
      else
        openAfter (nameOf inside :: opened) others

/-- The names of the elements that a page leaves open, outermost first. A page
that cannot be read, or closes an element that is not the innermost open one, has
no answer. -/
def openElements? (written : String) : Option (List String) :=
  (signs? written).bind fun signs => (openAfter [] signs).map List.reverse

end Html
end NotePress
