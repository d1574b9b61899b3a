import NotePress.Markup.Line
import NotePress.Text.Lines

/-!
# Hashtags

A hashtag is a name of letters with a list of parameters: `#Name` or
`#Name{one|two}`. Parameters are separated by pipes and blanks around them do not
count. Empty braces are no parameter list.
-/

namespace NotePress
namespace Document

/-- A name with parameters. -/
structure Hashtag where
  name : String
  parameters : List String
  deriving DecidableEq, Repr, Inhabited

namespace Hashtag

/-- The written form of a hashtag. -/
def sourceText (hashtag : Hashtag) : String :=
  if hashtag.parameters.isEmpty then
    "#" ++ hashtag.name
  else
    "#" ++ hashtag.name ++ "\x7b" ++ "|".intercalate hashtag.parameters ++
      "\x7d"

/-- The parameters between two braces. -/
def parametersOf (inside : List Char) : List String :=
  (Text.splitAt '|' inside).map fun parameter =>
    String.ofList (Text.dropEnds Text.isBlank parameter)

/-- The hashtag that a written form stands for. Refused are braces that are not
closed at the end, hold nothing, or hold a line feed. -/
def ofSource? (text : List Char) : Option Hashtag :=
  match text with
  | '#' :: rest =>
      let name := rest.takeWhile Markup.Lexer.isTagLetter
      if name.isEmpty then
        none
      else
        match rest.dropWhile Markup.Lexer.isTagLetter with
        | [] => some ⟨String.ofList name, []⟩
        | '{' :: list =>
            match Markup.Line.stripLast? '}' list with
            | none => none
            | some inside =>
                if inside.isEmpty || inside.contains '\n' then
                  none
                else
                  some ⟨String.ofList name, parametersOf inside⟩
        | _ => none
  | _ => none

end Hashtag

end Document
end NotePress
