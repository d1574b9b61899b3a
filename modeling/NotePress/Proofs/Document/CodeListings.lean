import NotePress.Proofs.Document.FinalLineBreak
import NotePress.Proofs.Document.PlainText
import NotePress.Proofs.Markup.LexedLines

/-!
# Written code blocks

A code block is written as its command after a fence, its lines under it and a
closing fence. The lines are cut into tokens together with all the markup in them,
the block ends at the first line that starts with three backticks, and what stands
between the fences is split into lines again. So a code block is read back from
what is written for it (`ofSource_listing`), as long as none of its lines closes
it early.
-/

namespace NotePress

namespace Text

open Markup (IsLine endedLines endedLines_cons)

/-- The first line of a text ends at its line feed. -/
theorem splitLines_line
    (isLine : IsLine line)
    (below : List Char) :
    splitLines (line.toList ++ '\n' :: below) =
      line.toList :: splitLines below := by
  obtain ⟨noFeed, noReturn⟩ := isLine
  generalize line.toList = characters at noFeed noReturn
  induction characters with
  | nil => rfl
  | cons first others inductionHypothesis =>
      rw [List.mem_cons, not_or] at noFeed
      rw [List.cons_append, splitLines_cons (Ne.symm noFeed.1),
        inductionHypothesis noFeed.2 noReturn.of_cons, withFirst]
      -- A carriage return would be part of the ending only at the end of the line.
      rintro rfl isFeed
      cases others with
      | nil => exact noReturn '\r' rfl rfl
      | cons second others =>
          obtain rfl : second = '\n' := by simpa using isFeed
          exact noFeed.2 List.mem_cons_self

/-- Lines are read back as they were written. -/
theorem lines_endedLines (areLines : ∀ line ∈ written, IsLine line) :
    lines (endedLines written) = written := by
  induction written with
  | nil => rfl
  | cons line others inductionHypothesis =>
      obtain ⟨isLine, later⟩ := List.forall_mem_cons.mp areLines
      have below := inductionHypothesis later
      rw [lines] at below ⊢
      rw [endedLines_cons, String.toList_append, String.toList_append,
        show "\n".toList = ['\n'] from rfl, List.append_assoc,
        List.singleton_append, splitLines_line isLine, List.map_cons, below,
        String.ofList_toList]

end Text

namespace Markup

/-! ## Fences -/

/-- A backtick. -/
def tick : Token :=
  ⟨.backtick, "`"⟩

/-- The three backticks of a fence. -/
def ticks : List Token :=
  [tick, tick, tick]

theorem isFence_ticks : Line.IsFence ticks :=
  ⟨rfl, by decide⟩

theorem lex_ticks (below : String) :
    lex ("```" ++ below) = ticks ++ lex below := by
  have isTick : Lexer.punctuation? '`' = some .backtick := rfl
  rw [lex, String.toList_append]
  change Lexer.tokens ('`' :: '`' :: '`' :: below.toList) = _
  rw [Lexer.tokens_punctuation isTick, Lexer.tokens_punctuation isTick,
    Lexer.tokens_punctuation isTick]
  rfl

/-- A fence is told by its characters. -/
theorem ticks_prefix_of_atFence
    (lexed : AllLexed tokens)
    (fenced : Line.atFence tokens = true) :
    ticks <+: tokens := by
  match tokens with
  | [] | [_] | [_, _] => cases fenced
  | first :: second :: third :: others =>
      simp only [Line.atFence, Bool.and_eq_true, beq_iff_eq] at fenced
      have isTick {token : Token}
          (member : token ∈ first :: second :: third :: others)
          (isKind : token.kind = .backtick) :
          token = tick := by
        obtain ⟨kind, text⟩ := token
        obtain rfl : kind = .backtick := isKind
        exact congrArg _ ((lexed _ member).text_of_sign rfl rfl)
      rw [isTick (by simp) fenced.1.1, isTick (by simp) fenced.1.2,
        isTick (by simp) fenced.2]
      exact ⟨others, rfl⟩

/-- A line is no fence unless it starts with three backticks. -/
theorem atFence_line
    (noFence : ¬ "```".toList <+: line.toList)
    (below : List Token) :
    Line.atFence (lex line ++ lineFeed :: below) = false := by
  rw [← Bool.not_eq_true]
  intro fenced
  apply noFence
  -- The line feed is no backtick, so all three stand on the line itself.
  have own : Line.atFence (lex line) = true := by
    revert fenced
    match lex line with
    | [] => rcases below with _ | ⟨_, _ | _⟩ <;> simp [Line.atFence, lineFeed]
    | [_] => cases below <;> simp [Line.atFence, lineFeed]
    | [_, _] => simp [Line.atFence, lineFeed]
    | _ :: _ :: _ :: _ => exact id
  obtain ⟨others, whole⟩ := ticks_prefix_of_atFence (allLexed_lex line) own
  have spelled := Lexer.flatMap_text_tokens line.toList
  rw [← lex, ← whole, List.flatMap_append] at spelled
  exact ⟨_, spelled⟩

/-! ## The lines of a code block -/

/-- A line that does not close a code block is one of its lines. -/
theorem Line.CodeLines.cons_line
    {line : String}
    {after : List Token}
    (noFeed : '\n' ∉ line.toList)
    (noFence : ¬ "```".toList <+: line.toList)
    (lines : CodeLines after others rest) :
    CodeLines (lex line ++ lineFeed :: after)
      ((lex line ++ [lineFeed]).map .ofToken ++ others) rest := by
  have taken := takeLine_lex noFeed after
  have unfenced := atFence_line noFence after
  cases whole : lex line ++ lineFeed :: after with
  | nil => simp at whole
  | cons first tokens =>
      rw [whole] at taken unfenced
      exact .line unfenced taken lines

/-- The lines of a code block are all those above the closing fence. -/
theorem codeLines_tokensOfLines
    (noFeeds : ∀ line ∈ lines, '\n' ∉ line.toList)
    (noFences : ∀ line ∈ lines, ¬ "```".toList <+: line.toList) :
    Line.CodeLines (tokensOfLines lines ++ (ticks ++ [lineFeed]))
      ((tokensOfLines lines).map .ofToken ++
        [Line.glued .delimiter ticks, .ofToken lineFeed]) [] := by
  induction lines with
  | nil => exact .fence isFence_ticks rfl
  | cons line lines inductionHypothesis =>
      obtain ⟨noFeed, others⟩ := List.forall_mem_cons.mp noFeeds
      obtain ⟨noFence, unfenced⟩ := List.forall_mem_cons.mp noFences
      have below := inductionHypothesis others unfenced
      rw [tokensOfLines_cons, List.append_assoc, List.cons_append,
        List.append_cons (lex line) lineFeed (tokensOfLines lines),
        List.map_append, List.append_assoc]
      exact below.cons_line noFeed noFence

end Markup

namespace Document

open Markup

/-- A code block as it is written. -/
def CodeBlock.listing (code : CodeBlock) : String :=
  "```" ++ code.command ++ "\n" ++ endedLines code.lines ++ "```\n"

/-- What the command and the lines of a code block have to be for its listing to
hold it: a trimmed line each, and no line of code that is a fence. -/
structure CodeBlock.IsListable (code : CodeBlock) : Prop where
  commandLine : '\n' ∉ code.command.toList
  trimmedCommand : Text.trim code.command = code.command
  codeLines : ∀ line ∈ code.lines, '\n' ∉ line.toList
  trimmedLines : ∀ line ∈ code.lines, Text.trimEnd line = line
  noFences : ∀ line ∈ code.lines, ¬ "```".toList <+: line.toList

namespace CodeBlock.IsListable

theorem isLine_command {code : CodeBlock} (listable : code.IsListable) :
    IsLine code.command := by
  apply IsLine.of_endsVisibly listable.commandLine
  rw [← listable.trimmedCommand]
  exact Text.endsVisibly_trim code.command

theorem isLine {code : CodeBlock} (listable : code.IsListable) :
    ∀ line ∈ code.command :: code.lines, IsLine line := by
  refine List.forall_mem_cons.mpr ⟨listable.isLine_command, fun line member => ?_⟩
  apply IsLine.of_endsVisibly (listable.codeLines line member)
  rw [← listable.trimmedLines line member]
  exact Text.endsVisibly_trimEnd line

theorem lex_listing {code : CodeBlock} (listable : code.IsListable) :
    lex code.listing =
      ticks ++ (tokensOfLines (code.command :: code.lines) ++
        (ticks ++ [lineFeed])) := by
  have closing : lex "```\n" = ticks ++ [lineFeed] := by
    have feed : lex ("" ++ "\n" ++ "") = lex "" ++ lineFeed :: lex "" :=
      lex_line (EndsIn.nil _) ""
    rw [show "```\n" = "```" ++ ("" ++ "\n" ++ "") by decide, lex_ticks, feed,
      lex_empty, List.nil_append]
  have whole : code.listing =
      "```" ++ (endedLines (code.command :: code.lines) ++ "```\n") := by
    rw [listing, endedLines_cons]
    simp only [String.append_assoc]
  rw [whole, lex_ticks, lex_endedLines listable.isLine, closing]

end CodeBlock.IsListable

namespace Reading

/-- Three backticks as one delimiter. -/
def fenceMark : Token :=
  ⟨.delimiter, "```"⟩

/-- The leaves of a code block, as it is written. -/
def listingLeaves (code : CodeBlock) : List Token :=
  fenceMark :: tokensOfLines (code.command :: code.lines) ++
    [fenceMark, lineFeed]

theorem parse_listing {code : CodeBlock} (listable : code.IsListable) :
    parse code.listing =
      .node .root
        [.node .paragraph
          [.node .codeBlock ((listingLeaves code).map .ofToken)]] := by
  have commandLine : Line.takeLine
      (lex code.command ++ lineFeed ::
        (tokensOfLines code.lines ++ (ticks ++ [lineFeed]))) =
      (lex code.command ++ [lineFeed],
        tokensOfLines code.lines ++ (ticks ++ [lineFeed])) :=
    takeLine_lex listable.commandLine _
  have lines := codeLines_tokensOfLines listable.codeLines listable.noFences
  have block := Line.Block.codeBlock isFence_ticks commandLine lines
  have whole := parseTokens_of_block rfl block
  have marks : Line.glued .delimiter ticks = .ofToken fenceMark := rfl
  rw [parse, listable.lex_listing, tokensOfLines_cons, List.append_assoc,
    List.cons_append, whole, listingLeaves, tokensOfLines_cons, marks]
  simp

theorem codeOf_endedLines {code : CodeBlock} (listable : code.IsListable) :
    codeOf (endedLines (code.command :: code.lines)) = code := by
  have trimmed : code.lines.map Text.trimEnd = code.lines :=
    List.map_congr_left listable.trimmedLines |>.trans (List.map_id code.lines)
  rw [codeOf, Text.lines_endedLines listable.isLine]
  simp only [listable.trimmedCommand, trimmed]

/-- What stands between the fences is the command and the lines. -/
theorem codeBlock_listingLeaves (code : CodeBlock) :
    codeBlock ((listingLeaves code).map .ofToken) =
      codeOf (endedLines (code.command :: code.lines)) := by
  have leaves : ∀ element ∈ (listingLeaves code).map Element.ofToken,
      element.isLeaf = true := by
    intro element member
    obtain ⟨token, _, rfl⟩ := List.mem_map.mp member
    rfl
  have inside : ∀ token ∈ tokensOfLines (code.command :: code.lines),
      (token.kind != .delimiter) = true := by
    intro token member
    rw [bne_iff_ne]
    exact (allLexed_tokensOfLines _ token member).ne_delimiter
  have closed :
      [fenceMark, lineFeed].takeWhile (·.kind != .delimiter) = [] := rfl
  rw [codeBlock_eq, betweenFences_of_leaves leaves, Element.leavesOf_ofTokens,
    listingLeaves, List.cons_append, fenced_cons rfl,
    List.takeWhile_append_of_pos inside, closed, List.append_nil,
    join_text_tokensOfLines]

end Reading

open Reading

/-- A code block is read back from its listing, whatever markup and however many
empty lines it has. -/
theorem ofSource_listing
    (listable : code.IsListable) :
    ofSource code.listing = .ok [[.codeBlock code]] := by
  have read : blocksOf ""
        [.node .codeBlock ((listingLeaves code).map .ofToken)] =
      .ok [.codeBlock code] := by
    rw [blocksOf, blockOf, codeBlock_listingLeaves, codeOf_endedLines listable,
      blocksOf]
    rfl
  rw [ofSource, parse_listing listable, ofTree_paragraph read]
  rfl

/-- A command that starts with a backtick, lines that look like markup, and empty
lines at both ends. -/
theorem ofSource_listing_markup :
    ofSource "````sh -e\n\n  *a* | #Link\x7bx|y\x7d\n``\n\n\n```\n" =
      .ok [[.codeBlock
        ⟨"`sh -e", ["", "  *a* | #Link\x7bx|y\x7d", "``", "", ""]⟩]] := by
  have listable : CodeBlock.IsListable
      ⟨"`sh -e", ["", "  *a* | #Link\x7bx|y\x7d", "``", "", ""]⟩ := by
    constructor <;> decide +kernel
  have written : CodeBlock.listing
      ⟨"`sh -e", ["", "  *a* | #Link\x7bx|y\x7d", "``", "", ""]⟩ =
      "````sh -e\n\n  *a* | #Link\x7bx|y\x7d\n``\n\n\n```\n" := by
    decide +kernel
  rw [← written]
  exact ofSource_listing listable

end Document
end NotePress
