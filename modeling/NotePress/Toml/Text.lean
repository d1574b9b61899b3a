import NotePress.Text.Blank

/-!
# TOML strings

A string stands between single or double quotes, one or three of each. Between
double quotes a backslash starts an escape. A string in three quotes may hold
line feeds, a line feed directly after its opening is dropped, and two more
quotes may stand directly before its closing.
-/

namespace NotePress
namespace Toml

/-- The characters of comments and strings: no control characters but tabs. -/
def isPrintable (character : Char) : Bool :=
  character == '\t' || (32 ≤ character.toNat && character.toNat ≠ 127)

/-- What stands behind the characters that a text has to start with. -/
def behind? : List Char → List Char → Option (List Char)
  | [], text => some text
  | _ :: _, [] => none
  | first :: others, character :: rest =>
      if first = character then behind? others rest else none

/-- Whether every carriage return is followed by a line feed. -/
def returnsArePaired : List Char → Bool
  | [] => true
  | '\r' :: '\n' :: rest => returnsArePaired rest
  | '\r' :: _ => false
  | _ :: rest => returnsArePaired rest

/-- A text without the line break at its start. -/
def dropLineBreak : List Char → List Char
  | '\n' :: rest => rest
  | '\r' :: '\n' :: rest => rest
  | text => text

/-- Cut off what stands before a quote, and the quote. With escapes, the
character after a backslash ends nothing; `escaped` says that it comes next. -/
def splitAtQuote?
    (quote : Char)
    (escapes escaped : Bool) : List Char → Option (List Char × List Char)
  | [] => none
  | first :: rest =>
      if !escaped && first == quote then
        some ([], rest)
      else
        (splitAtQuote? quote escapes
          (escapes && !escaped && first == '\\') rest).map
            fun (inside, after) => (first :: inside, after)

/-- Cut off what stands before three quotes, and these quotes. Of more than three
quotes, two at most belong to what stands before. -/
def splitAtThreeQuotes?
    (quote : Char)
    (escapes escaped : Bool) : List Char → Option (List Char × List Char)
  | first :: second :: third :: rest =>
      if !escaped && first == quote && second == quote && third == quote then
        let extra := (rest.takeWhile (· == quote)).take 2
        some (extra, rest.drop extra.length)
      else
        (splitAtThreeQuotes? quote escapes
          (escapes && !escaped && first == '\\') (second :: third :: rest)).map
            fun (inside, after) => (first :: inside, after)
  | _ => none

/-- The value of a hexadecimal digit. -/
def hexDigit? (character : Char) : Option Nat :=
  if character.isDigit then
    some (character.toNat - '0'.toNat)
  else if 'a' ≤ character ∧ character ≤ 'f' then
    some (character.toNat - 'a'.toNat + 10)
  else if 'A' ≤ character ∧ character ≤ 'F' then
    some (character.toNat - 'A'.toNat + 10)
  else
    none

/-- The character with a code point. -/
def characterOf? (code : Nat) : Option Char :=
  if code.isValidChar then some (Char.ofNat code) else none

/-- Where a string with escapes stands between two of its characters. -/
inductive EscapeState
  | plain
  | backslash
  /-- Some hexadecimal digits are missing. -/
  | digits (missing value : Nat)
  /-- A backslash at the end of a line swallows the blanks after it. -/
  | swallowing (broken : Bool)
  deriving DecidableEq, Repr

namespace EscapeState

/-- The state after a character outside an escape, and what it stands for. -/
def afterPlain?
    (severalLines : Bool)
    (character : Char) : Option (List Char × EscapeState) :=
  if character = '\\' then
    some ([], .backslash)
  else if isPrintable character ||
      (severalLines && (character == '\n' || character == '\r')) then
    some ([character], .plain)
  else
    none

/-- The state after the character behind a backslash, and what it stands for. -/
def afterBackslash?
    (severalLines : Bool)
    (character : Char) : Option (List Char × EscapeState) :=
  match character with
  | 'b' => some (['\x08'], .plain)
  | 't' => some (['\t'], .plain)
  | 'n' => some (['\n'], .plain)
  | 'f' => some (['\x0C'], .plain)
  | 'r' => some (['\r'], .plain)
  | 'e' => some (['\x1B'], .plain)
  | '"' => some (['"'], .plain)
  | '\\' => some (['\\'], .plain)
  | 'x' => some ([], .digits 2 0)
  | 'u' => some ([], .digits 4 0)
  | 'U' => some ([], .digits 8 0)
  | '\n' => if severalLines then some ([], .swallowing true) else none
  | _ =>
      if severalLines && (Text.isSpacing character || character == '\r') then
        some ([], .swallowing false)
      else
        none

/-- The state after a character, and what it stands for. -/
def after?
    (severalLines : Bool)
    (state : EscapeState)
    (character : Char) : Option (List Char × EscapeState) :=
  match state with
  | plain => afterPlain? severalLines character
  | backslash => afterBackslash? severalLines character
  | digits missing value =>
      match hexDigit? character with
      | none => none
      | some digit =>
          if missing ≤ 1 then
            (characterOf? (16 * value + digit)).map fun written =>
              ([written], .plain)
          else
            some ([], .digits (missing - 1) (16 * value + digit))
  | swallowing broken =>
      if character = '\n' then
        some ([], .swallowing true)
      else if Text.isSpacing character || character == '\r' then
        some ([], .swallowing broken)
      else if broken then
        afterPlain? severalLines character
      else
        none

/-- Whether a string may end in a state. -/
def mayEnd : EscapeState → Bool
  | plain => true
  | swallowing broken => broken
  | _ => false

end EscapeState

/-- What the characters between double quotes stand for. -/
def unescape?
    (severalLines : Bool)
    (state : EscapeState) : List Char → Option (List Char)
  | [] => if state.mayEnd then some [] else none
  | first :: rest =>
      match state.after? severalLines first with
      | none => none
      | some (written, next) =>
          (unescape? severalLines next rest).map fun others => written ++ others

/-- What the characters between single quotes stand for: themselves. -/
def literal?
    (severalLines : Bool)
    (inside : List Char) : Option (List Char) :=
  if inside.all fun character =>
      isPrintable character ||
        (severalLines && (character == '\n' || character == '\r')) then
    some inside
  else
    none

/-- What the characters between quotes stand for. -/
def quoted?
    (quote : Char)
    (severalLines : Bool)
    (inside : List Char) : Option String :=
  if returnsArePaired inside then
    (if quote = '"' then
      unescape? severalLines .plain inside
    else
      literal? severalLines inside).map String.ofList
  else
    none

/-- The string on one line that starts after a quote, and the text after it. -/
def lineText?
    (quote : Char)
    (text : List Char) : Option (String × List Char) :=
  match splitAtQuote? quote (quote == '"') false text with
  | none => none
  | some (inside, after) =>
      (quoted? quote false inside).map fun content => (content, after)

/-- The string that starts after a quote, and the text after it. -/
def text?
    (quote : Char)
    (text : List Char) : Option (String × List Char) :=
  match text with
  | first :: second :: rest =>
      if first = quote ∧ second = quote then
        match splitAtThreeQuotes? quote (quote == '"') false rest with
        | none => none
        | some (inside, after) =>
            (quoted? quote true (dropLineBreak inside)).map fun content =>
              (content, after)
      else
        lineText? quote text
  | _ => lineText? quote text

end Toml
end NotePress
