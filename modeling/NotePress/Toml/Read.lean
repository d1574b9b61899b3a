import NotePress.Toml.Moment

/-!
# Reading TOML

A file is a sequence of lines: blank lines, keys with values, and headers that
say which table the keys after them belong to. Lists and tables in braces may
stretch over several lines and may have a comma after their last item.

Anything that is not exactly a TOML file is refused as a whole.
-/

namespace NotePress
namespace Toml
namespace Read

/-- How deep lists and tables in braces may stand in one another. -/
def maximalDepth : Nat := 80

/-- How many keys may stand between the points of a dotted key. -/
def maximalKeys : Nat := 80

/-- A text without the blanks, line breaks and comments at its start. -/
def skipIdle? (inComment : Bool) : List Char → Option (List Char)
  | [] => some []
  | '\n' :: rest => skipIdle? false rest
  | '\r' :: '\n' :: rest => skipIdle? false rest
  | first :: rest =>
      if inComment then
        if isPrintable first then skipIdle? true rest else none
      else if first = '#' then
        skipIdle? true rest
      else if Text.isSpacing first then
        skipIdle? false rest
      else
        some (first :: rest)

/-- The lines after a line that holds only blanks and a comment from here on. -/
def endLine? (inComment : Bool) : List Char → Option (List Char)
  | [] => some []
  | '\n' :: rest => some rest
  | '\r' :: '\n' :: rest => some rest
  | first :: rest =>
      if inComment then
        if isPrintable first then endLine? true rest else none
      else if first = '#' then
        endLine? true rest
      else if Text.isSpacing first then
        endLine? false rest
      else
        none

/-- A text without the spaces and tabs at its start. -/
def skipSpacing (text : List Char) : List Char :=
  text.dropWhile Text.isSpacing

/-- The characters of keys without quotes. -/
def isBare (character : Char) : Bool :=
  character.isAlphanum || character == '_' || character == '-'

/-- A key without points, and the text after it. -/
def simpleKey? (text : List Char) : Option (String × List Char) :=
  match text with
  | '"' :: rest => lineText? '"' rest
  | '\'' :: rest => lineText? '\'' rest
  | _ =>
      if (text.takeWhile isBare).isEmpty then
        none
      else
        some (String.ofList (text.takeWhile isBare), text.dropWhile isBare)

/-- A key with points: the keys before its last point, and the key after it. -/
structure DottedKey where
  before : List String
  last : String

/-- All keys of a dotted key. -/
def DottedKey.all (key : DottedKey) : List String :=
  key.before ++ [key.last]

/-- A key with points and blanks around them, and the text after both. A key of
more than `limit` keys is refused. -/
def dottedKey?
    (limit : Nat)
    (text : List Char) : Option (DottedKey × List Char) :=
  match limit with
  | 0 => none
  | limit + 1 =>
      match simpleKey? (skipSpacing text) with
      | none => none
      | some (first, rest) =>
          match skipSpacing rest with
          | '.' :: others =>
              (dottedKey? limit others).map fun (key, after) =>
                (⟨first :: key.before, key.last⟩, after)
          | after => some (⟨[], first⟩, after)

/-- The characters of values without quotes and brackets. -/
def isWordCharacter (character : Char) : Bool :=
  character.isAlphanum || character == '_' || character == '+' ||
    character == '-' || character == '.' || character == ':'

/-- The word of a moment, and the text after it. Between a date and a time may be
a space. -/
def momentWord (text : List Char) : List Char × List Char :=
  let word := text.takeWhile isWordCharacter
  let rest := text.dropWhile isWordCharacter
  match rest with
  | ' ' :: next :: others =>
      if afterDate? word == some [] && next.isDigit then
        (word ++ ' ' :: (next :: others).takeWhile isWordCharacter,
          (next :: others).dropWhile isWordCharacter)
      else
        (word, rest)
  | _ => (word, rest)

/-- Whether a word is meant as a moment: a dash or a colon follows its first
digits. -/
def looksLikeMoment (word : List Char) : Bool :=
  match word with
  | [] => false
  | first :: _ =>
      first.isDigit &&
        match (word.dropWhile (·.isDigit)).head? with
        | some next => next == '-' || next == ':'
        | none => false

/-- A value without quotes and brackets, and the text after it. -/
def word? (text : List Char) : Option (Value × List Char) :=
  let word := text.takeWhile isWordCharacter
  let rest := text.dropWhile isWordCharacter
  if word = "true".toList then
    some (.boolean true, rest)
  else if word = "false".toList then
    some (.boolean false, rest)
  else if looksLikeMoment word then
    let (moment, rest) := momentWord text
    if isMoment moment then
      some (.moment (String.ofList moment), rest)
    else
      none
  else
    (number? word).map fun value => (value, rest)

/-- A key in braces with the sign after it, and the text of its value. Line breaks
and comments may stand around the sign. -/
def keyAndText? (text : List Char) : Option (DottedKey × List Char) :=
  match dottedKey? maximalKeys text with
  | none => none
  | some (key, rest) =>
      match skipIdle? false rest with
      | some ('=' :: rest) =>
          (skipIdle? false rest).map fun start => (key, start)
      | _ => none

mutual

/-- A value, and the text after it. -/
def value?
    (fuel depth : Nat)
    (text : List Char) : Option (Value × List Char) :=
  match fuel with
  | 0 => none
  | fuel + 1 =>
      match text with
      | '"' :: rest =>
          (text? '"' rest).map fun (content, after) => (.text content, after)
      | '\'' :: rest =>
          (text? '\'' rest).map fun (content, after) => (.text content, after)
      | '[' :: rest =>
          if depth = 0 then
            none
          else
            (items? fuel (depth - 1) rest).map fun (items, after) =>
              (.list items, after)
      | '{' :: rest =>
          if depth = 0 then
            none
          else
            (entries? fuel (depth - 1) [] rest).map fun (entries, after) =>
              (.table .braces entries, after)
      | _ => word? text

/-- The items of a list up to its closing bracket, and the text after it. -/
def items?
    (fuel depth : Nat)
    (text : List Char) : Option (List Value × List Char) :=
  match fuel with
  | 0 => none
  | fuel + 1 =>
      match skipIdle? false text with
      | none => none
      | some (']' :: after) => some ([], after)
      | some start =>
          match value? fuel depth start with
          | none => none
          | some (item, rest) =>
              match skipIdle? false rest with
              | some (',' :: others) =>
                  (items? fuel depth others).map fun (items, after) =>
                    (item :: items, after)
              | some (']' :: after) => some ([item], after)
              | _ => none

/-- The entries of a table up to its closing brace, added to those before, and
the text after it. -/
def entries?
    (fuel depth : Nat)
    (entries : Entries)
    (text : List Char) : Option (Entries × List Char) :=
  match fuel with
  | 0 => none
  | fuel + 1 =>
      match skipIdle? false text with
      | none => none
      | some ('}' :: after) => some (entries, after)
      | some start =>
          match keyAndText? start with
          | none => none
          | some (key, start) =>
              match value? fuel depth start with
              | none => none
              | some (value, rest) =>
                  match entries.assign? key.before key.last value,
                      skipIdle? false rest with
                  | some entries, some (',' :: others) =>
                      entries? fuel depth entries others
                  | some entries, some ('}' :: after) => some (entries, after)
                  | _, _ => none

end

/-- The entries after a header line, which opens a table, and the lines after
it. -/
def header?
    (open? : List String → String → Entries → Option Entries)
    (closing : List Char)
    (entries : Entries)
    (text : List Char) : Option (List String × Entries × List Char) := do
  let (key, rest) ← dottedKey? maximalKeys text
  let rest ← endLine? false (← behind? closing rest)
  some (key.all, ← open? key.before key.last entries, rest)

/-- The entries after a line with a key and its value, and the lines after it. -/
def assignment?
    (header : List String)
    (entries : Entries)
    (text : List Char) : Option (Entries × List Char) := do
  let (key, rest) ← dottedKey? maximalKeys text
  let rest ← behind? ['='] rest
  let (value, rest) ←
    value? (2 * rest.length + 2) maximalDepth (skipSpacing rest)
  let rest ← endLine? false rest
  some (← entries.assignBelow? header key.before key.last value, rest)

/-- The entries after all lines. -/
def lines?
    (fuel : Nat)
    (header : List String)
    (entries : Entries)
    (text : List Char) : Option Entries :=
  match fuel with
  | 0 => none
  | fuel + 1 =>
      match skipIdle? false text with
      | none => none
      | some [] => some entries
      | some ('[' :: '[' :: rest) =>
          match header? Entries.openItem? [']', ']'] entries rest with
          | none => none
          | some (header, entries, rest) => lines? fuel header entries rest
      | some ('[' :: rest) =>
          match header? Entries.openTable? [']'] entries rest with
          | none => none
          | some (header, entries, rest) => lines? fuel header entries rest
      | some start =>
          match assignment? header entries start with
          | none => none
          | some (entries, rest) => lines? fuel header entries rest

/-- A text without the mark of its byte order. -/
def dropByteOrderMark : List Char → List Char
  | '\uFEFF' :: rest => rest
  | text => text

end Read

mutual

/-- Whether all numbers in a value fit into the numbers of a machine. -/
def Value.fits : Value → Bool
  | .integer value => integerFits value
  | .decimal _ digits exponent => decimalFits digits exponent
  | .list items => allFit items
  | .tables items => allFit items
  | .table _ entries => entriesFit entries
  | _ => true

/-- Whether all numbers in values fit. -/
def allFit : List Value → Bool
  | [] => true
  | value :: others => value.fits && allFit others

/-- Whether all numbers in entries fit. -/
def entriesFit : List (String × Value) → Bool
  | [] => true
  | (_, value) :: others => value.fits && entriesFit others

end

/-- The table that a TOML file holds. Refused are files that are not TOML or hold
a number that does not fit into those of a machine. -/
def read? (source : String) : Option Entries :=
  let text := Read.dropByteOrderMark source.toList
  match Read.lines? (text.length + 1) [] [] text with
  | none => none
  | some entries => if entriesFit entries then some entries else none

end Toml
end NotePress
