/-!
# Escaped text

Text in a page is written with its ampersands and angle brackets as entities. In
a quoted attribute value double quotes are entities too.
-/

namespace NotePress
namespace Html

/-- How a character of a text is written. -/
def escapeCharacter : Char → List Char
  | '&' => "&amp;".toList
  | '<' => "&lt;".toList
  | '>' => "&gt;".toList
  | character => [character]

/-- How a character of an attribute value is written. -/
def escapeQuotedCharacter : Char → List Char
  | '"' => "&quot;".toList
  | character => escapeCharacter character

/-- The written form of a text. -/
def escape (text : String) : String :=
  String.ofList (text.toList.flatMap escapeCharacter)

/-- The written form of an attribute value between double quotes. -/
def escapeQuoted (text : String) : String :=
  String.ofList (text.toList.flatMap escapeQuotedCharacter)

@[simp] theorem toList_escape (text : String) :
    (escape text).toList = text.toList.flatMap escapeCharacter :=
  String.toList_ofList

@[simp] theorem toList_escapeQuoted (text : String) :
    (escapeQuoted text).toList = text.toList.flatMap escapeQuotedCharacter :=
  String.toList_ofList

end Html
end NotePress
