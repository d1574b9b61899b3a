import NotePress.Markup.Line

/-!
# Paragraphs and whole sources

A paragraph is a run of lines up to a blank line. A source is a run of
paragraphs and blank lines, and its tree keeps every character of it.
-/

namespace NotePress
namespace Markup
namespace Parse

/-- Whether a line without visible characters comes next. -/
def atBlankLine : List Token → Bool
  | [] => false
  | first :: others =>
      first.kind == .newline ||
        (first.kind == .whitespace && Line.atLineEnd others)

/-- The lines of a paragraph that starts with a token. -/
def paragraphLines
    (token : Token)
    (rest : List Token) : Parsed (List Element) rest.length :=
  let first := Line.line token rest
  match first with
  | ⟨elements, last, [], bounded⟩ => ⟨elements, last, [], bounded⟩
  | ⟨elements, last, next :: others, bounded⟩ =>
      if atBlankLine (next :: others) then
        ⟨elements, last, next :: others, bounded⟩
      else
        ((paragraphLines next others).map fun more => elements ++ more).weaken
          (Nat.le_of_lt bounded)
termination_by rest.length

/-- A paragraph that starts with a token. -/
def paragraph
    (token : Token)
    (rest : List Token) : Parsed Element rest.length :=
  (paragraphLines token rest).map (.node .paragraph)

/-- The paragraphs and the blank lines of a token list. -/
def sections (tokens : List Token) : List Element :=
  match tokens with
  | [] => []
  | first :: rest =>
      if atBlankLine (first :: rest) then
        .ofToken first :: sections rest
      else
        (paragraph first rest).value :: sections (paragraph first rest).rest
termination_by tokens.length
decreasing_by
  · simp
  · have := (paragraph first rest).bounded
    simp only [List.length_cons]
    omega

end Parse

/-- The tree of a token list. -/
def parseTokens (tokens : List Token) : Element :=
  .node .root (Parse.sections tokens)

/-- The syntax tree of a source text. -/
def parse (source : String) : Element :=
  parseTokens (lex source)

end Markup
end NotePress
