import NotePress.Markup.Kind
import NotePress.Text.Blank

/-!
# Lexer

Cuts a source text into tokens. No character is dropped: the texts of the tokens,
put together in order, are the source. A token is the longest prefix of what is
left that one of the token rules accepts. A character that starts no rule, such
as a lone `@` or a carriage return without a line feed, is a text token of its
own.

Tokens do not depend on context. The two rules longer than a run of one class
are directive names (`#Link`) and mentions (`@ada`), so that punctuation after a
name stays outside it.
-/

namespace NotePress
namespace Markup

/-- A piece of source text with its kind. -/
structure Token where
  kind : Kind
  text : String
  deriving DecidableEq, Repr, Inhabited

namespace Lexer

/-- The kind of a character that is always a token by itself. -/
def punctuation? : Char → Option Kind
  | '*' => some .star
  | '/' => some .slash
  | '_' => some .underscore
  | '-' => some .dash
  | '`' => some .backtick
  | '"' => some .quote
  | '{' => some .leftBrace
  | '}' => some .rightBrace
  | '|' => some .pipe
  | '[' => some .leftBracket
  | ']' => some .rightBracket
  | _ => none

/-- The characters of plain text: all but blanks and those that can start a
construct. -/
def isPlain (character : Char) : Bool :=
  !(Text.isBlank character || character == '#' || character == '@' ||
    (punctuation? character).isSome)

/-- The letters of a directive name. -/
def isTagLetter (character : Char) : Bool :=
  character.isAlpha

/-- The characters of a mentioned name. -/
def isNameCharacter (character : Char) : Bool :=
  character.isAlphanum || character == '_'

/-- The token made of a character and the longest run of a class after it. -/
def takeRun
    (kind : Kind)
    (test : Char → Bool)
    (first : Char)
    (rest : List Char) : Token × List Char :=
  (⟨kind, String.ofList (first :: rest.takeWhile test)⟩, rest.dropWhile test)

/-- The token at the start of a text, and the text after it. -/
def nextToken (first : Char) (rest : List Char) : Token × List Char :=
  if Text.isSpacing first then
    takeRun .whitespace Text.isSpacing first rest
  else if first = '\n' then
    (⟨.newline, "\n"⟩, rest)
  else if first = '\r' then
    match rest with
    | '\n' :: others => (⟨.newline, "\r\n"⟩, others)
    | _ => (⟨.text, "\r"⟩, rest)
  else if first = '#' then
    match rest.takeWhile isTagLetter with
    | [] => (⟨.hash, "#"⟩, rest)
    | _ => takeRun .hashtagName isTagLetter first rest
  else if first = '@' then
    match rest.takeWhile isNameCharacter with
    | [] => (⟨.text, "@"⟩, rest)
    | _ => takeRun .mentionName isNameCharacter first rest
  else
    match punctuation? first with
    | some kind => (⟨kind, first.toString⟩, rest)
    | none =>
        if isPlain first then
          takeRun .text isPlain first rest
        else
          (⟨.text, first.toString⟩, rest)

theorem length_dropWhile_le (test : α → Bool) (list : List α) :
    (list.dropWhile test).length ≤ list.length :=
  (List.dropWhile_suffix test).length_le

theorem length_nextToken_le (first : Char) (rest : List Char) :
    (nextToken first rest).2.length ≤ rest.length := by
  unfold nextToken takeRun
  repeat' split
  all_goals simp [length_dropWhile_le]

/-- The tokens of a list of characters. -/
def tokens : List Char → List Token
  | [] => []
  | first :: rest =>
      (nextToken first rest).1 :: tokens (nextToken first rest).2
termination_by characters => characters.length
decreasing_by
  have := length_nextToken_le first rest
  simp only [List.length_cons]
  omega

end Lexer

/-- The tokens of a source text. -/
def lex (source : String) : List Token :=
  Lexer.tokens source.toList

end Markup
end NotePress
