/-!
# Blank characters

Blanks are the characters that separate words: those with the Unicode property
`White_Space`. Trimming removes them from the ends of a text. Everything here is
stated on lists of characters, with a `String` version beside it.
-/

namespace NotePress
namespace Text

/-- The characters with the Unicode property `White_Space`. -/
def isBlank (character : Char) : Bool :=
  let code := character.toNat
  (0x9 ≤ code && code ≤ 0xD) ||
    code == 0x20 || code == 0x85 || code == 0xA0 || code == 0x1680 ||
    (0x2000 ≤ code && code ≤ 0x200A) ||
    code == 0x2028 || code == 0x2029 || code == 0x202F ||
    code == 0x205F || code == 0x3000

/-- The spaces and tabs that separate words on one line. -/
def isSpacing (character : Char) : Bool :=
  character == ' ' || character == '\t'

/-- A list without its longest tail of elements that satisfy a test. -/
def dropTrailing (test : α → Bool) : List α → List α
  | [] => []
  | first :: others =>
      match dropTrailing test others with
      | [] => if test first then [] else [first]
      | kept => first :: kept

@[simp] theorem dropTrailing_nil (test : α → Bool) :
    dropTrailing test [] = [] := rfl

/-- A list without the elements at either end that satisfy a test. -/
def dropEnds
    (test : α → Bool)
    (list : List α) : List α :=
  dropTrailing test (list.dropWhile test)

/-- A text without the blanks at its start. -/
def trimStart (text : String) : String :=
  String.ofList (text.toList.dropWhile isBlank)

/-- A text without the blanks at its end. -/
def trimEnd (text : String) : String :=
  String.ofList (dropTrailing isBlank text.toList)

/-- A text without the blanks at either end. -/
def trim (text : String) : String :=
  String.ofList (dropEnds isBlank text.toList)

@[simp] theorem toList_trimStart (text : String) :
    (trimStart text).toList = text.toList.dropWhile isBlank :=
  String.toList_ofList

@[simp] theorem toList_trimEnd (text : String) :
    (trimEnd text).toList = dropTrailing isBlank text.toList :=
  String.toList_ofList

@[simp] theorem toList_trim (text : String) :
    (trim text).toList = dropEnds isBlank text.toList :=
  String.toList_ofList

end Text
end NotePress
