import NotePress.Proofs.Markup.FinalEnding
import NotePress.Proofs.Text.Trimming

/-!
# Lines are lexed one by one

A line that is written with a line feed after it gives its own tokens and a line
ending, and nothing of it is told by what is below. When it has no line feed in it
either, taking the current line of the tokens takes just these.
-/

namespace NotePress
namespace Markup

/-- The line ending that a line feed is lexed into. -/
def lineFeed : Token :=
  ⟨.newline, "\n"⟩

/-- Lines that are written under one another, each with its line feed. -/
def endedLines (lines : List String) : String :=
  String.join (lines.map (· ++ "\n"))

theorem endedLines_cons
    (line : String)
    (lines : List String) :
    endedLines (line :: lines) = line ++ "\n" ++ endedLines lines := by
  rw [endedLines, List.map_cons, String.join_cons, endedLines]

/-- A line that has no line feed in it, and no carriage return that would belong to
the line feed after it. -/
structure IsLine (line : String) : Prop where
  noFeed : '\n' ∉ line.toList
  noReturn : EndsIn (· ≠ '\r') line.toList

/-- A text that does not end with a blank does not end with a carriage return. -/
theorem IsLine.of_endsVisibly
    (noFeed : '\n' ∉ line.toList)
    (ends : Text.EndsVisibly line) :
    IsLine line := by
  refine ⟨noFeed, fun last isLast => ?_⟩
  rintro rfl
  cases ends '\r' isLast

theorem lex_empty : lex "" = [] := by
  rw [lex, String.toList_empty, Lexer.tokens]

/-- A line is lexed into its own tokens and a line ending. -/
theorem lex_line
    (noReturn : EndsIn (· ≠ '\r') line.toList)
    (below : String) :
    lex (line ++ "\n" ++ below) = lex line ++ lineFeed :: lex below := by
  have ends : EndsIn (· = '\n') (line ++ "\n").toList := by
    intro last isLast
    rw [String.toList_append, show "\n".toList = ['\n'] from rfl,
      List.getLast?_concat] at isLast
    exact (Option.mem_some.mp isLast).symm
  have own : lex (line ++ "\n") = lex line ++ [lineFeed] := by
    rw [lex, String.toList_append, show "\n".toList = ['\n'] from rfl,
      Lexer.tokens_append_lineFeed _ noReturn, lex, lineFeed]
  rw [lex_append _ below ends, own, List.append_assoc, List.singleton_append]

/-- The tokens of lines, each with its line ending. -/
def tokensOfLines (lines : List String) : List Token :=
  lines.flatMap fun line => lex line ++ [lineFeed]

theorem tokensOfLines_cons
    (line : String)
    (lines : List String) :
    tokensOfLines (line :: lines) =
      lex line ++ lineFeed :: tokensOfLines lines := by
  simp [tokensOfLines]

/-- Lines under one another are lexed one by one. -/
theorem lex_endedLines
    (areLines : ∀ line ∈ lines, IsLine line)
    (below : String) :
    lex (endedLines lines ++ below) = tokensOfLines lines ++ lex below := by
  induction lines with
  | nil => simp [endedLines, tokensOfLines]
  | cons line lines inductionHypothesis =>
      obtain ⟨isLine, others⟩ := List.forall_mem_cons.mp areLines
      rw [endedLines_cons, String.append_assoc, lex_line isLine.noReturn,
        inductionHypothesis others, tokensOfLines_cons, List.append_assoc,
        List.cons_append]

/-- The tokens of lines are tokens of the lexer. -/
theorem allLexed_tokensOfLines (lines : List String) :
    AllLexed (tokensOfLines lines) := by
  intro token member
  obtain ⟨line, _, inLine⟩ := List.mem_flatMap.mp member
  rcases List.mem_append.mp inLine with inside | isFeed
  · exact allLexed_lex line token inside
  · rw [List.mem_singleton.mp isFeed]
    exact ⟨'\n', [], rfl⟩

/-- The texts of the tokens of lines are the lines. -/
theorem join_text_tokensOfLines (lines : List String) :
    String.join ((tokensOfLines lines).map Token.text) = endedLines lines := by
  induction lines with
  | nil => rfl
  | cons line lines inductionHypothesis =>
      rw [tokensOfLines_cons, List.map_append, String.join_append,
        join_text_lex, List.map_cons, String.join_cons, inductionHypothesis,
        endedLines_cons, lineFeed, String.append_assoc]

/-- Taking the current line takes the tokens before the next line ending, and that
ending. -/
theorem takeLine_lex
    (noFeed : '\n' ∉ line.toList)
    (below : List Token) :
    Line.takeLine (lex line ++ lineFeed :: below) =
      (lex line ++ [lineFeed], below) := by
  have onLine : ∀ token ∈ lex line, token.kind ≠ .newline :=
    fun _ => ne_newline_of_mem_lex noFeed
  generalize lex line = tokens at onLine
  induction tokens with
  | nil => rfl
  | cons first others inductionHypothesis =>
      obtain ⟨visible, later⟩ := List.forall_mem_cons.mp onLine
      rw [List.cons_append, Line.takeLine, if_neg visible,
        inductionHypothesis later, List.cons_append]

end Markup

end NotePress
