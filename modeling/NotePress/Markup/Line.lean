import NotePress.Markup.Inline

/-!
# Lines and paragraphs

What a line is, is decided by the tokens that start it: hashes before a blank
make a heading, `-`, `*` or a number with a point before a blank make an item, a
pipe starts a table and three backticks a code block. Any other line holds
inline elements only. Tables and code blocks take in the lines after them that
belong to them.

A paragraph is a run of lines up to a blank line, and a source is a run of
paragraphs and blank lines. `parse` builds the tree of a whole source.
-/

namespace NotePress
namespace Markup
namespace Line

/-- The most hashes that a heading marker has. -/
def maximalLevel : Nat := 255

/-- Whether the current line ends here. -/
def atLineEnd : List Token → Bool
  | [] => true
  | first :: _ => first.kind == .newline

/-- Whether the next token is of a kind. -/
def startsWith (kind : Kind) : List Token → Bool
  | [] => false
  | first :: _ => first.kind == kind

/-- The tokens of the current line, its ending included, and the tokens after
it. -/
def takeLine : List Token → List Token × List Token
  | [] => ([], [])
  | first :: others =>
      if first.kind = .newline then
        ([first], others)
      else
        (first :: (takeLine others).1, (takeLine others).2)

theorem length_takeLine_le (tokens : List Token) :
    (takeLine tokens).2.length ≤ tokens.length := by
  induction tokens with
  | nil => simp [takeLine]
  | cons first others inductionHypothesis =>
      unfold takeLine
      split
      · simp
      · simp only [List.length_cons]
        omega

theorem length_takeLine_cons_le (first : Token) (others : List Token) :
    (takeLine (first :: others)).2.length ≤ others.length := by
  unfold takeLine
  split
  · simp
  · exact length_takeLine_le others

/-- The elements read so far and the line ending after them, if it comes next. -/
def withEnding (parsed : Parsed (List Element) bound) :
    Parsed (List Element) bound :=
  match parsed with
  | ⟨elements, last, [], bounded⟩ => ⟨elements, last, [], bounded⟩
  | ⟨elements, last, first :: others, bounded⟩ =>
      if first.kind = .newline then
        ⟨elements ++ [.ofToken first], .newline, others,
          Nat.le_trans (Nat.le_succ _) bounded⟩
      else
        ⟨elements, last, first :: others, bounded⟩

/-- The inline elements up to the end of the line, and the line ending. -/
def inlineRest
    (previous : Kind)
    (tokens : List Token) : Parsed (List Element) tokens.length :=
  withEnding (Inline.elements (fun _ => false) previous tokens)

/-- A marker with the blank after it, and the rest of the line, as one node. -/
def marked
    (kind : Kind)
    (marker : Element)
    (tokens : List Token) : Parsed (List Element) tokens.length :=
  match tokens with
  | [] => .atEnd [.node kind [marker]] .endOfInput
  | blank :: rest =>
      ((inlineRest blank.kind rest).map fun content =>
        [.node kind (marker :: .ofToken blank :: content)]).weaken
        (Nat.le_succ rest.length)

/-- The level of the heading that a line is: the number of hashes before its
first blank. More than `maximalLevel` hashes make no heading. -/
def headingLevel? (tokens : List Token) : Option Nat :=
  let level := (tokens.takeWhile (·.kind == .hash)).length
  if 0 < level && level ≤ maximalLevel &&
      startsWith .whitespace (tokens.dropWhile (·.kind == .hash)) then
    some level
  else
    none

/-- A list without a given last element, if it has it. -/
def stripLast?
    [DecidableEq α]
    (last : α)
    (list : List α) : Option (List α) :=
  if list.getLast? = some last then some list.dropLast else none

/-- A list without a given first element, if it has it. -/
def stripFirst?
    [DecidableEq α]
    (first : α)
    (list : List α) : Option (List α) :=
  if list.head? = some first then some list.tail else none

/-- Whether a text is digits with a point after them, such as `3.`, `3).` or
`(3).`. -/
def isOrderedMarker (text : List Char) : Bool :=
  match stripLast? '.' text with
  | none => false
  | some numbered =>
      let opened := (stripFirst? '(' numbered).getD numbered
      let digits := (stripLast? ')' opened).getD opened
      !digits.isEmpty && digits.all (·.isDigit)

/-- Whether three backticks come next. -/
def atFence : List Token → Bool
  | first :: second :: third :: _ =>
      first.kind == .backtick && second.kind == .backtick &&
        third.kind == .backtick
  | _ => false

/-- The three backticks at the front of a list, glued into one delimiter. -/
def fence (tokens : List Token) : Element :=
  .leaf .delimiter (String.join ((tokens.take 3).map Token.text))

/-- The cells of a table row after a pipe. Blanks between the last pipe and the
end of the line are no cell. -/
def cells (tokens : List Token) : Parsed (List Element) tokens.length :=
  match tokens with
  | [] => .atEnd [] .pipe
  | first :: rest =>
      if first.kind = .newline then
        .leaving [] .pipe (first :: rest)
      else if first.kind = .whitespace ∧ atLineEnd rest = true then
        ⟨[.ofToken first], first.kind, rest, Nat.le_succ _⟩
      else
        match Inline.elements (fun kind => kind == .pipe) .pipe
            (first :: rest) with
        | ⟨content, _, bar :: after, bounded⟩ =>
            if bar.kind = .pipe then
              have shorter : after.length < (first :: rest).length := bounded
              ((cells after).map fun others =>
                .node .tableCell content :: .ofDelimiter bar :: others).weaken
                  (Nat.le_of_lt shorter)
            else
              ⟨[.node .tableCell content], .pipe, bar :: after, bounded⟩
        | ⟨content, last, [], bounded⟩ =>
            ⟨[.node .tableCell content], last, [], bounded⟩
termination_by tokens.length
decreasing_by
  simp only [List.length_cons] at *
  omega

/-- A table row: the pipe that starts it, its cells and its line ending. -/
def tableRow
    (bar : Token)
    (rest : List Token) : Parsed Element rest.length :=
  (withEnding (cells rest)).map fun content =>
    .node .tableRow (.ofDelimiter bar :: content)

/-- The rows of a table: the consecutive lines that start with a pipe. -/
def tableRows (tokens : List Token) : Parsed (List Element) tokens.length :=
  match tokens with
  | [] => .atEnd [] .newline
  | bar :: rest =>
      if bar.kind = .pipe then
        let row := tableRow bar rest
        have shorter : row.rest.length < (bar :: rest).length :=
          Nat.lt_succ_of_le row.bounded
        ((tableRows row.rest).map fun others => row.value :: others).weaken
          (Nat.le_of_lt shorter)
      else
        .leaving [] .newline (bar :: rest)
termination_by tokens.length
decreasing_by
  simp only [List.length_cons] at *
  omega

/-- The tokens of a closing fence line: everything before its ending delimits. -/
def closingLine (tokens : List Token) : List Element :=
  tokens.map fun token =>
    if token.kind = .newline then .ofToken token else .ofDelimiter token

/-- The lines of a code block after its first, up to and with the closing fence
or, without one, up to the end of the source. -/
def codeLines (tokens : List Token) : Parsed (List Element) tokens.length :=
  match tokens with
  | [] => .atEnd [] .newline
  | first :: rest =>
      if atFence (first :: rest) = true then
        ⟨fence (first :: rest) ::
            closingLine (takeLine ((first :: rest).drop 3)).1,
          .newline, (takeLine ((first :: rest).drop 3)).2,
          Nat.le_trans (length_takeLine_le _)
            (by simp only [List.length_drop]; omega)⟩
      else
        have shorter :
            (takeLine (first :: rest)).2.length < (first :: rest).length :=
          Nat.lt_succ_of_le (length_takeLine_cons_le first rest)
        ((codeLines (takeLine (first :: rest)).2).map fun others =>
          (takeLine (first :: rest)).1.map .ofToken ++ others).weaken
            (Nat.le_of_lt shorter)
termination_by tokens.length
decreasing_by
  simp only [List.length_cons] at *
  omega

/-- A code block: the opening fence, the rest of that line, which names the
interpreter, and the lines of code. -/
def codeBlock
    (token : Token)
    (rest : List Token) : Parsed (List Element) rest.length :=
  let firstLine := takeLine (rest.drop 2)
  ((codeLines firstLine.2).map fun others =>
    [.node .codeBlock
      (fence (token :: rest) :: firstLine.1.map .ofToken ++ others)]).weaken
    (Nat.le_trans (length_takeLine_le _)
      (by simp only [List.length_drop]; omega))

/-- A heading of a level: its hashes glued into one marker, and the rest of the
line. -/
def heading
    (level : Nat)
    (token : Token)
    (rest : List Token) : Parsed (List Element) rest.length :=
  (marked .heading
    (.leaf .headingMarker
      (String.join (((token :: rest).take level).map Token.text)))
    (rest.drop (level - 1))).weaken
    (by simp only [List.length_drop]; omega)

/-- A table: its first row and the rows directly after it. -/
def table
    (token : Token)
    (rest : List Token) : Parsed (List Element) rest.length :=
  let row := tableRow token rest
  ((tableRows row.rest).map fun others =>
    [.node .table (row.value :: others)]).weaken row.bounded

/-- The elements of the line that starts with a token, and those of the lines
after it that belong to the same table or code block. -/
def line
    (token : Token)
    (rest : List Token) : Parsed (List Element) rest.length :=
  let plainLine : Parsed (List Element) rest.length :=
    if token.kind = .newline then
      .leaving [.ofToken token] token.kind rest
    else
      let first := Inline.element .newline token rest
      ((inlineRest first.last first.rest).map fun others =>
        first.value :: others).weaken first.bounded
  match token.kind with
  | .hash =>
      match headingLevel? (token :: rest) with
      | some level => heading level token rest
      | none => plainLine
  | .dash | .star =>
      if startsWith .whitespace rest then
        marked .unorderedItem (.leaf .listMarker token.text) rest
      else
        plainLine
  | .text =>
      if isOrderedMarker token.text.toList && startsWith .whitespace rest then
        marked .orderedItem (.leaf .orderedMarker token.text) rest
      else
        plainLine
  | .pipe => table token rest
  | .backtick =>
      if atFence (token :: rest) then codeBlock token rest else plainLine
  | _ => plainLine

end Line

end Markup
end NotePress
