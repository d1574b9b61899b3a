import NotePress.Proofs.Markup.Derivation

/-!
# Layouts

The rules for lines, tables, code blocks, paragraphs and whole sources as
relations between tokens and the elements made of them. The sections of a source
have a layout (`layout_sections`), and whatever has one is the sections of its
tokens (`Layout.eq_sections`): a tree can be told to be the tree of a source
without running the parser on it.
-/

namespace NotePress
namespace Markup

/-- What a rule of the grammar made of some tokens, and what it left. -/
structure Parsed.Leaves
    (parsed : Parsed α bound)
    (value : α)
    (rest : List Token) : Prop where
  value : parsed.value = value
  rest : parsed.rest = rest

open Inline (Derives)

namespace Line

/-- Whether something other than blanks is left on the current line. -/
def atVisible (tokens : List Token) : Bool :=
  !tokens.isEmpty && !Parse.atBlankLine tokens

/-- The line ending after the elements of a line. Only the last line of a source
may have none. -/
inductive Ending : List Token → List Element → List Token → Prop
  | taken :
      token.kind = .newline →
      Ending (token :: rest) [.ofToken token] rest
  | missing : Ending [] [] []

/-! ## Tables -/

/-- The cells of a table row after a bar. -/
inductive Cells : List Token → List Element → List Token → Prop
  | done :
      atLineEnd tokens = true →
      Cells tokens [] tokens
  | blank :
      token.kind = .whitespace →
      atLineEnd rest = true →
      Cells (token :: rest) [.ofToken token] rest
  | cell :
      atVisible tokens = true →
      Derives (· == .pipe) .pipe tokens content last (bar :: middle) →
      bar.kind = .pipe →
      Cells middle others rest →
      Cells tokens (.node .tableCell content :: .ofDelimiter bar :: others) rest
  | lastCell :
      atVisible tokens = true →
      Derives (· == .pipe) .pipe tokens content last rest →
      atLineEnd rest = true →
      Cells tokens [.node .tableCell content] rest

/-- A table row. -/
inductive Row : List Token → Element → List Token → Prop
  | row :
      bar.kind = .pipe →
      Cells tokens parts middle →
      Ending middle ending rest →
      Row (bar :: tokens)
        (.node .tableRow (.ofDelimiter bar :: parts ++ ending)) rest

/-- The rows of a table up to the first line that starts with no bar. -/
inductive Rows : List Token → List Element → List Token → Prop
  | done :
      startsWith .pipe tokens = false →
      Rows tokens [] tokens
  | next :
      Row tokens row middle →
      Rows middle rows rest →
      Rows tokens (row :: rows) rest

/-! ## Code blocks -/

/-- Three backticks. -/
structure IsFence (ticks : List Token) : Prop where
  length : ticks.length = 3
  kind : ∀ tick ∈ ticks, tick.kind = .backtick

/-- Tokens glued into one leaf. -/
def glued
    (kind : Kind)
    (tokens : List Token) : Element :=
  .leaf kind (String.join (tokens.map Token.text))

/-- The lines of a code block after its first. -/
inductive CodeLines : List Token → List Element → List Token → Prop
  | missing : CodeLines [] [] []
  | fence :
      IsFence ticks →
      takeLine tokens = (ending, rest) →
      CodeLines (ticks ++ tokens)
        (glued .delimiter ticks :: closingLine ending) rest
  | line :
      atFence (first :: tokens) = false →
      takeLine (first :: tokens) = (code, middle) →
      CodeLines middle others rest →
      CodeLines (first :: tokens) (code.map .ofToken ++ others) rest

/-! ## Lines -/

/-- A marker at the start of a line, with the kind of the node that it opens. -/
inductive Marker : List Token → Kind → Element → List Token → Prop
  | heading :
      hashes ≠ [] →
      hashes.length ≤ maximalLevel →
      (∀ token ∈ hashes, token.kind = .hash) →
      Marker (hashes ++ rest) .heading (glued .headingMarker hashes) rest
  | unorderedItem :
      token.kind = .dash ∨ token.kind = .star →
      Marker (token :: rest) .unorderedItem (.leaf .listMarker token.text) rest
  | orderedItem :
      token.kind = .text →
      isOrderedMarker token.text.toList = true →
      Marker (token :: rest) .orderedItem (.leaf .orderedMarker token.text) rest

/-- Whether a line starts nothing and holds elements only. -/
def startsText : List Token → Bool
  | [] => false
  | token :: rest =>
      match token.kind with
      | .newline | .pipe => false
      | .hash => (headingLevel? (token :: rest)).isNone
      | .dash | .star => !startsWith .whitespace rest
      | .text =>
          !(isOrderedMarker token.text.toList && startsWith .whitespace rest)
      | .backtick => !atFence (token :: rest)
      | _ => true

/-- A line, with the lines after it that belong to the same table or code
block. -/
inductive Block : List Token → List Element → List Token → Prop
  | marked :
      Marker tokens kind marker (blank :: middle) →
      blank.kind = .whitespace →
      Derives (fun _ => false) blank.kind middle content last left →
      Ending left ending rest →
      Block tokens
        [.node kind (marker :: .ofToken blank :: content ++ ending)] rest
  | table :
      Row tokens row middle →
      Rows middle rows rest →
      Block tokens [.node .table (row :: rows)] rest
  | codeBlock :
      IsFence ticks →
      takeLine tokens = (command, middle) →
      CodeLines middle others rest →
      Block (ticks ++ tokens)
        [.node .codeBlock
          (glued .delimiter ticks :: command.map .ofToken ++ others)] rest
  | text :
      startsText tokens = true →
      Derives (fun _ => false) .newline tokens content last left →
      Ending left ending rest →
      Block tokens (content ++ ending) rest

end Line

namespace Parse

/-- The lines of a paragraph. -/
inductive Lines : List Token → List Element → List Token → Prop
  | last :
      Line.Block tokens elements rest →
      Line.atVisible rest = false →
      Lines tokens elements rest
  | next :
      Line.Block tokens elements middle →
      Line.atVisible middle = true →
      Lines middle others rest →
      Lines tokens (elements ++ others) rest

/-- The sections of a source. -/
inductive Layout : List Token → List Element → Prop
  | nil : Layout [] []
  | blank :
      atBlankLine (token :: rest) = true →
      Layout rest others →
      Layout (token :: rest) (.ofToken token :: others)
  | paragraph :
      Line.atVisible tokens = true →
      Lines tokens children rest →
      Layout rest others →
      Layout tokens (.node .paragraph children :: others)

end Parse

/-! ## The sections of a source have a layout -/

namespace Line

/-- A rule that stops at the end of a line takes its ending. -/
theorem ending_withEnding
    {parsed : Parsed (List Element) bound}
    (ended : atLineEnd parsed.rest = true) :
    ∃ ending, (withEnding parsed).value = parsed.value ++ ending ∧
      Ending parsed.rest ending (withEnding parsed).rest := by
  obtain ⟨elements, last, rest, bounded⟩ := parsed
  cases rest with
  | nil => exact ⟨[], by simp [withEnding], .missing⟩
  | cons first others =>
      have newline : first.kind = .newline := eq_of_beq ended
      refine ⟨[.ofToken first], ?_, ?_⟩
      · simp [withEnding, newline]
      · simp only [withEnding, if_pos newline]
        exact .taken newline

/-- Without a test, elements go on to the end of the line. -/
theorem atLineEnd_of_stopsAt
    (stopped : Inline.stopsAt (fun _ => false) tokens = true) :
    atLineEnd tokens = true := by
  cases tokens with
  | nil => rfl
  | cons first others => simpa [Inline.stopsAt, atLineEnd] using stopped

/-- The rest of a line is derived element by element, and its ending comes after it. -/
theorem derives_inlineRest
    (previous : Kind)
    (tokens : List Token) :
    ∃ content last left ending,
      Derives (fun _ => false) previous tokens content last left ∧
      Ending left ending (inlineRest previous tokens).rest ∧
      (inlineRest previous tokens).value = content ++ ending := by
  have ended := atLineEnd_of_stopsAt
    (Inline.stopsAt_rest_elements (fun _ => false) previous tokens)
  obtain ⟨ending, value, taken⟩ := ending_withEnding ended
  exact ⟨_, _, _, ending, Inline.derives_elements _ previous tokens, taken,
    value⟩

/-- The rule for the cells of a row makes what their relation allows. -/
theorem cells_cells (tokens : List Token) :
    Cells tokens (cells tokens).value (cells tokens).rest := by
  unfold cells
  split
  · exact .done rfl
  · rename_i first rest
    split
    · rename_i newline
      exact .done (by simp [atLineEnd, newline])
    · rename_i visible
      split
      · rename_i spaced
        exact .blank spaced.1 spaced.2
      · rename_i notSpaced
        have goesOn : atVisible (first :: rest) = true := by
          by_cases space : first.kind = .whitespace <;>
            simp_all [atVisible, Parse.atBlankLine]
        have content := Inline.derives_elements (fun kind => kind == .pipe)
          .pipe (first :: rest)
        have stopped := Inline.stopsAt_rest_elements
          (fun kind => kind == .pipe) .pipe (first :: rest)
        split
        · rename_i inner last bar after bounded inside
          rw [inside] at content stopped
          split
          · rename_i isPipe
            have shorter : after.length < (first :: rest).length := bounded
            exact .cell goesOn content isPipe (cells_cells after)
          · rename_i notPipe
            refine .lastCell goesOn content ?_
            simpa [Inline.stopsAt, notPipe, atLineEnd] using stopped
        · rename_i inside
          rw [inside] at content
          exact .lastCell goesOn content rfl
termination_by tokens.length

/-- Cells go on to the end of their line. -/
theorem Cells.atLineEnd
    (cells : Cells tokens parts rest) :
    Line.atLineEnd rest = true := by
  induction cells with
  | done ended => exact ended
  | blank _ ended => exact ended
  | cell _ _ _ _ inductionHypothesis => exact inductionHypothesis
  | lastCell _ _ ended => exact ended

/-- The rule for a row makes what its relation allows. -/
theorem row_tableRow
    {bar : Token}
    (isPipe : bar.kind = .pipe)
    (rest : List Token) :
    Row (bar :: rest) (tableRow bar rest).value (tableRow bar rest).rest := by
  have parts := cells_cells rest
  obtain ⟨ending, value, taken⟩ := ending_withEnding parts.atLineEnd
  have row := Row.row isPipe parts taken
  rw [List.cons_append, ← value] at row
  exact row

/-- The rule for the rows of a table makes what their relation allows. -/
theorem rows_tableRows (tokens : List Token) :
    Rows tokens (tableRows tokens).value (tableRows tokens).rest := by
  induction tokens using tableRows.induct with
  | case1 =>
      rw [tableRows]
      exact .done rfl
  | case2 bar rest isPipe row _ inductionHypothesis =>
      rw [tableRows, if_pos isPipe]
      exact .next (row_tableRow isPipe rest) inductionHypothesis
  | case3 bar rest notPipe =>
      rw [tableRows, if_neg notPipe]
      exact .done (by simpa [startsWith] using notPipe)

/-- Tokens that are seen as a fence are three backticks. -/
theorem isFence_take
    (fenced : atFence tokens = true) :
    IsFence (tokens.take 3) := by
  match tokens with
  | first :: second :: third :: _ =>
      simp only [atFence, Bool.and_eq_true, beq_iff_eq] at fenced
      exact ⟨rfl, by simp [fenced]⟩

/-- The rule for the lines of a code block makes what their relation allows. -/
theorem codeLines_codeLines (tokens : List Token) :
    CodeLines tokens (codeLines tokens).value (codeLines tokens).rest := by
  induction tokens using codeLines.induct with
  | case1 =>
      rw [codeLines]
      exact .missing
  | case2 first rest fenced =>
      rw [codeLines, if_pos fenced]
      have lines := CodeLines.fence (isFence_take fenced)
        (show takeLine ((first :: rest).drop 3) = (_, _) from rfl)
      rw [List.take_append_drop] at lines
      exact lines
  | case3 first rest unfenced _ inductionHypothesis =>
      rw [codeLines, if_neg unfenced]
      exact .line (by simpa using unfenced) rfl inductionHypothesis

/-- A marker with a blank after it opens a line. -/
theorem block_marked
    (marker : Marker tokens kind leaf rest)
    (spaced : startsWith .whitespace rest = true) :
    Block tokens (marked kind leaf rest).value (marked kind leaf rest).rest := by
  cases rest with
  | nil => cases spaced
  | cons blank middle =>
      obtain ⟨content, last, left, ending, derives, taken, value⟩ :=
        derives_inlineRest blank.kind middle
      have block := Block.marked marker (eq_of_beq spaced) derives taken
      rw [List.cons_append, List.cons_append, ← value] at block
      exact block

/-- Hashes of a level and a blank open a heading. -/
theorem block_heading
    {level : Nat}
    {token : Token}
    (found : headingLevel? (token :: rest) = some level) :
    Block (token :: rest) (heading level token rest).value
      (heading level token rest).rest := by
  obtain ⟨_, spaced⟩ := startsWith_of_headingLevel found
  unfold headingLevel? at found
  simp only [Option.ite_none_right_eq_some, Bool.and_eq_true, decide_eq_true_eq,
    Option.some.injEq] at found
  obtain ⟨⟨⟨positive, short⟩, _⟩, equal⟩ := found
  rw [equal] at positive short
  obtain ⟨fewer, rfl⟩ := Nat.exists_eq_succ_of_ne_zero
    (Nat.ne_of_gt positive)
  have isHashes : (token :: rest).take fewer.succ =
      (token :: rest).takeWhile (·.kind == .hash) := by
    rw [← equal]
    exact (List.prefix_iff_eq_take.mp (List.takeWhile_prefix _)).symm
  have marker : Marker ((token :: rest).take fewer.succ ++ rest.drop fewer)
      .heading (glued .headingMarker ((token :: rest).take fewer.succ))
      (rest.drop fewer) := by
    apply Marker.heading
    · simp
    · rw [isHashes, equal]
      exact short
    · intro hash member
      rw [isHashes] at member
      simpa using List.mem_takeWhile_imp member
  have whole := List.take_append_drop fewer.succ (token :: rest)
  rw [List.drop_succ_cons] at whole
  rw [whole] at marker
  exact block_marked marker spaced

/-- A fence opens a code block. -/
theorem block_codeBlock
    {token : Token}
    (fenced : atFence (token :: rest) = true) :
    Block (token :: rest) (codeBlock token rest).value
      (codeBlock token rest).rest := by
  have block := Block.codeBlock (isFence_take fenced)
    (show takeLine (rest.drop 2) = (_, _) from rfl) (codeLines_codeLines _)
  have whole := List.take_append_drop 3 (token :: rest)
  rw [List.drop_succ_cons] at whole
  rw [whole] at block
  exact block

/-- What opens nothing is a line of text. -/
theorem block_text
    {token : Token}
    (starts : startsText (token :: rest) = true)
    (visible : token.kind ≠ .newline) :
    Block (token :: rest)
      ((Inline.element .newline token rest).value ::
        (inlineRest (Inline.element .newline token rest).last
          (Inline.element .newline token rest).rest).value)
      (inlineRest (Inline.element .newline token rest).last
        (Inline.element .newline token rest).rest).rest := by
  obtain ⟨content, last, left, ending, derives, taken, value⟩ :=
    derives_inlineRest (Inline.element .newline token rest).last
      (Inline.element .newline token rest).rest
  have goesOn : Inline.stopsAt (fun _ => false) (token :: rest) = false := by
    simpa [Inline.stopsAt] using visible
  have whole := Inline.derives_element goesOn (Inline.derives_elements _ _ _)
    derives
  rw [value]
  exact .text starts whole taken

/-- Every line that is read is of one of the shapes: the cases are those of the rule for
a line, in its order. -/
theorem block_line
    {token : Token}
    {rest : List Token}
    (visible : token.kind ≠ .newline) :
    Block (token :: rest) (line token rest).value (line token rest).rest := by
  unfold line
  extract_lets first plainLine
  have ordinary (starts : startsText (token :: rest) = true) :
      Block (token :: rest) plainLine.value plainLine.rest := by
    unfold plainLine
    rw [if_neg visible]
    exact block_text starts visible
  split
  · rename_i isHash
    split
    · exact block_heading ‹_›
    · rename_i noLevel
      exact ordinary (by simp [startsText, isHash, noLevel])
  · rename_i isDash
    split
    · exact block_marked (.unorderedItem (.inl isDash)) ‹_›
    · rename_i notSpaced
      exact ordinary (by simp [startsText, isDash, notSpaced])
  · rename_i isStar
    split
    · exact block_marked (.unorderedItem (.inr isStar)) ‹_›
    · rename_i notSpaced
      exact ordinary (by simp [startsText, isStar, notSpaced])
  · rename_i isText
    split
    · rename_i numbered
      rw [Bool.and_eq_true] at numbered
      exact block_marked (.orderedItem isText numbered.1) numbered.2
    · rename_i notNumbered
      exact ordinary (by
        simp only [startsText, isText]
        simpa only [Bool.not_eq_true', Bool.not_eq_true] using notNumbered)
  · rename_i isPipe
    exact .table (row_tableRow isPipe rest) (rows_tableRows _)
  · rename_i isBacktick
    split
    · exact block_codeBlock ‹_›
    · rename_i notFenced
      exact ordinary (by simp [startsText, isBacktick, notFenced])
  · rename_i other
    exact ordinary (by
      unfold startsText
      split <;> simp_all)

end Line

namespace Parse

/-- The rule for the lines of a paragraph makes what their relation allows. -/
theorem lines_paragraphLines
    (token : Token)
    (rest : List Token)
    (visible : token.kind ≠ .newline) :
    Lines (token :: rest) (paragraphLines token rest).value
      (paragraphLines token rest).rest := by
  have block : Line.Block (token :: rest) _ _ := Line.block_line visible
  unfold paragraphLines
  simp only
  split
  · rename_i found
    rw [found] at block
    exact .last block rfl
  · rename_i elements last next others bounded found
    rw [found] at block
    split
    · rename_i blank
      exact .last block (by simp [Line.atVisible, blank])
    · rename_i goesOn
      have nextVisible : next.kind ≠ .newline := by
        intro newline
        exact goesOn (by simp [atBlankLine, newline])
      exact .next block (by simp [Line.atVisible, goesOn])
        (lines_paragraphLines next others nextVisible)
termination_by rest.length

/-- The sections of a source have a layout. -/
theorem layout_sections (tokens : List Token) :
    Layout tokens (sections tokens) := by
  induction tokens using sections.induct with
  | case1 =>
      rw [sections]
      exact .nil
  | case2 first rest blank inductionHypothesis =>
      rw [sections, if_pos blank]
      exact .blank blank inductionHypothesis
  | case3 first rest goesOn inductionHypothesis =>
      have visible : first.kind ≠ .newline := by
        intro newline
        exact goesOn (by simp [atBlankLine, newline])
      rw [sections, if_neg goesOn]
      exact .paragraph (by simp [Line.atVisible, goesOn])
        (lines_paragraphLines first rest visible) inductionHypothesis

end Parse

/-! ## A layout tells the sections -/

namespace Line

/-- The ending that a relation takes is the one that is read. -/
theorem Ending.leaves
    {parsed : Parsed (List Element) bound}
    (taken : Ending left ending rest)
    (before : parsed.Leaves elements left) :
    (withEnding parsed).Leaves (elements ++ ending) rest := by
  obtain ⟨value, last, remaining, bounded⟩ := parsed
  obtain ⟨sameValue, sameRest⟩ := before
  simp only at sameValue sameRest
  subst sameValue sameRest
  cases taken with
  | taken newline =>
      simp only [withEnding, if_pos newline]
      exact ⟨rfl, rfl⟩
  | missing => exact ⟨(List.append_nil _).symm, rfl⟩

/-- What the rest of a line is derived as is what it is read as. -/
theorem leaves_inlineRest
    (derives : Derives (fun _ => false) previous tokens content last left)
    (taken : Ending left ending rest) :
    (inlineRest previous tokens).Leaves (content ++ ending) rest := by
  have result := derives.isResult
  exact taken.leaves ⟨result.value, result.rest⟩

/-- Where something is visible, tokens are left. -/
theorem ne_nil_of_atVisible (visible : atVisible tokens = true) :
    tokens ≠ [] := by
  rintro rfl
  cases visible

/-- What comes of the tokens after the content of a cell: the bar and the cells
after it, or nothing. -/
def afterCell : List Token → List Element × List Token
  | [] => ([], [])
  | bar :: after =>
      if bar.kind = .pipe then
        (.ofDelimiter bar :: (cells after).value, (cells after).rest)
      else
        ([], bar :: after)

/-- A cell with its content is read with what comes after the content. -/
theorem leaves_cells_of_atVisible
    {first : Token}
    {tokens : List Token}
    (visible : atVisible (first :: tokens) = true)
    (inside : Derives (· == .pipe) .pipe (first :: tokens) content last rest) :
    (cells (first :: tokens)).Leaves
      (.node .tableCell content :: (afterCell rest).1) (afterCell rest).2 := by
  simp only [atVisible, Parse.atBlankLine, List.isEmpty_cons, Bool.not_false,
    Bool.true_and, Bool.not_eq_true', Bool.or_eq_false_iff,
    beq_eq_false_iff_ne, Bool.and_eq_false_iff, ne_eq] at visible
  obtain ⟨notNewline, notBlank⟩ := visible
  rw [cells, if_neg notNewline, if_neg (by
    rintro ⟨space, ended⟩
    simp [space, ended] at notBlank)]
  obtain ⟨value, _, remaining⟩ := inside.isResult
  split
  · rename_i found
    rw [found] at value remaining
    subst value remaining
    simp only [afterCell]
    split
    · exact ⟨rfl, rfl⟩
    · exact ⟨rfl, rfl⟩
  · rename_i found
    rw [found] at value remaining
    subst value remaining
    exact ⟨rfl, rfl⟩

/-- What is derived as cells is what is read as cells. -/
theorem Cells.leaves (derives : Cells tokens parts rest) :
    (cells tokens).Leaves parts rest := by
  induction derives with
  | @done tokens ended =>
      rcases eq_nil_or_newline_of_atLineEnd ended with
        rfl | ⟨ending, others, rfl, newline⟩
      · rw [cells]
        exact ⟨rfl, rfl⟩
      · rw [cells, if_pos newline]
        exact ⟨rfl, rfl⟩
  | @blank token rest space ended =>
      rw [cells, if_neg (by rw [space]; decide), if_pos ⟨space, ended⟩]
      exact ⟨rfl, rfl⟩
  | @cell tokens content last bar middle others rest visible inside isPipe _
      inductionHypothesis =>
      obtain ⟨first, tokens, rfl⟩ :=
        List.exists_cons_of_ne_nil (ne_nil_of_atVisible visible)
      have cell := leaves_cells_of_atVisible visible inside
      rw [afterCell, if_pos isPipe, inductionHypothesis.value,
        inductionHypothesis.rest] at cell
      exact cell
  | @lastCell tokens content last rest visible inside ended =>
      obtain ⟨first, tokens, rfl⟩ :=
        List.exists_cons_of_ne_nil (ne_nil_of_atVisible visible)
      have cell := leaves_cells_of_atVisible visible inside
      rcases eq_nil_or_newline_of_atLineEnd ended with
        rfl | ⟨ending, others, rfl, newline⟩
      · exact cell
      · rw [afterCell, if_neg (by rw [newline]; decide)] at cell
        exact cell

/-- A row starts with a bar, and is read as it was derived. -/
theorem Row.leaves
    {bar : Token}
    {element : Element}
    (derives : Row (bar :: tokens) element rest) :
    bar.kind = .pipe ∧ (tableRow bar tokens).Leaves element rest := by
  cases derives with
  | row isPipe parts taken =>
      have whole := taken.leaves parts.leaves
      refine ⟨isPipe, ?_, whole.rest⟩
      rw [tableRow, Parsed.value_map, whole.value, List.cons_append]

theorem Row.exists_cons
    {element : Element}
    (derives : Row tokens element rest) :
    ∃ bar others, tokens = bar :: others := by
  cases derives with
  | row => exact ⟨_, _, rfl⟩

/-- What is derived as rows is what is read as rows. -/
theorem Rows.leaves (derives : Rows tokens rows rest) :
    (tableRows tokens).Leaves rows rest := by
  induction derives with
  | @done tokens other =>
      cases tokens with
      | nil =>
          rw [tableRows]
          exact ⟨rfl, rfl⟩
      | cons bar others =>
          have notPipe : bar.kind ≠ .pipe := by
            simpa [startsWith] using other
          rw [tableRows, if_neg notPipe]
          exact ⟨rfl, rfl⟩
  | next row _ inductionHypothesis =>
      obtain ⟨bar, others, rfl⟩ := row.exists_cons
      obtain ⟨isPipe, rfl, rfl⟩ := row.leaves
      rw [tableRows, if_pos isPipe]
      exact ⟨congrArg _ inductionHypothesis.value, inductionHypothesis.rest⟩

theorem IsFence.exists_ticks (fence : IsFence ticks) :
    ∃ first second third, ticks = [first, second, third] := by
  have length := fence.length
  match ticks with
  | [first, second, third] => exact ⟨first, second, third, rfl⟩

/-- The tokens of a fence are seen as one whatever follows them. -/
theorem IsFence.atFence
    (fence : IsFence ticks)
    (rest : List Token) :
    Line.atFence (ticks ++ rest) = true := by
  have kinds := fence.kind
  obtain ⟨first, second, third, rfl⟩ := fence.exists_ticks
  simpa [Line.atFence, and_assoc] using kinds

/-- The tokens of a fence are read as one leaf. -/
theorem IsFence.fence
    (isFence : IsFence ticks)
    (rest : List Token) :
    Line.fence (ticks ++ rest) = glued .delimiter ticks := by
  rw [Line.fence, ← isFence.length, List.take_left, glued]

/-- What is derived as the lines of a code block is what is read as such. -/
theorem CodeLines.leaves (derives : CodeLines tokens others rest) :
    (codeLines tokens).Leaves others rest := by
  induction derives with
  | missing =>
      rw [codeLines]
      exact ⟨rfl, rfl⟩
  | @fence ticks tokens ending rest isFence taken =>
      have fenced := isFence.atFence tokens
      have glue := isFence.fence tokens
      have after : (ticks ++ tokens).drop 3 = tokens := by
        rw [← isFence.length, List.drop_left]
      obtain ⟨first, second, third, rfl⟩ := isFence.exists_ticks
      simp only [List.cons_append, List.nil_append] at fenced glue after ⊢
      rw [codeLines, if_pos fenced]
      simp only [glue, after, taken]
      exact ⟨rfl, rfl⟩
  | line unfenced taken _ inductionHypothesis =>
      obtain ⟨rfl, rfl⟩ := Prod.ext_iff.mp taken
      rw [codeLines, if_neg (by simp [unfenced])]
      exact ⟨congrArg _ inductionHypothesis.value, inductionHypothesis.rest⟩

/-- A marked line is read as it was derived. -/
theorem leaves_marked
    {kind : Kind}
    {marker : Element}
    {blank : Token}
    (derives : Derives (fun _ => false) blank.kind middle content last left)
    (taken : Ending left ending rest) :
    (marked kind marker (blank :: middle)).Leaves
      [.node kind (marker :: .ofToken blank :: content ++ ending)] rest := by
  have whole := leaves_inlineRest derives taken
  refine ⟨?_, whole.rest⟩
  rw [List.cons_append, List.cons_append, ← whole.value]
  rfl

/-- A heading is read as its hashes with the rest of the line. -/
theorem leaves_heading
    {token : Token}
    {rest : List Token}
    (whole : (marked .heading (glued .headingMarker (token :: hashes))
      rest).Leaves elements left) :
    (heading (hashes.length + 1) token (hashes ++ rest)).Leaves elements
      left := by
  have taken : (token :: (hashes ++ rest)).take (hashes.length + 1) =
      token :: hashes := by
    rw [List.take_succ_cons, List.take_left]
  have dropped : (hashes ++ rest).drop (hashes.length + 1 - 1) = rest :=
    List.drop_left
  refine ⟨?_, ?_⟩
  · rw [heading, Parsed.value_weaken, taken, dropped]
    exact whole.value
  · rw [heading, Parsed.rest_weaken, taken, dropped]
    exact whole.rest

/-- The node that a marker opens is the one that the line is. -/
theorem Marker.leaves
    {token : Token}
    {rest : List Token}
    (marker : Marker (token :: tokens) kind leaf rest)
    (spaced : startsWith .whitespace rest = true)
    (whole : (marked kind leaf rest).Leaves elements left) :
    (line token tokens).Leaves elements left := by
  generalize same : token :: tokens = all at marker
  cases marker with
  | @heading hashes rest nonempty short isHash =>
      cases hashes with
      | nil => exact absurd rfl nonempty
      | cons hash hashes =>
          cases same
          have isFirst := isHash token List.mem_cons_self
          obtain ⟨blank, after, rfl⟩ : ∃ blank after, rest = blank :: after := by
            cases rest with
            | nil => cases spaced
            | cons blank after => exact ⟨blank, after, rfl⟩
          have isBlank : blank.kind = .whitespace := eq_of_beq spaced
          have isHashes : ∀ part ∈ token :: hashes,
              (part.kind == .hash) = true := by
            simpa using isHash
          have stops : (blank.kind == .hash) = false := by
            simp [isBlank]
          obtain ⟨taken, left⟩ := Inline.takeWhile_of_all isHashes stops after
          rw [List.cons_append] at taken left
          have level : headingLevel? (token :: (hashes ++ blank :: after)) =
              some (hashes.length + 1) := by
            rw [headingLevel?]
            simp only [taken, left, spaced, List.length_cons, Bool.and_true]
            rw [if_pos (by simpa using short)]
          rw [List.append_eq, line]
          simp only [isFirst, level]
          exact leaves_heading whole
  | unorderedItem isMark =>
      cases same
      obtain ⟨value, remaining⟩ := whole
      rcases isMark with isMark | isMark
      · simp only [line, isMark, spaced, if_true]
        exact ⟨value, remaining⟩
      · simp only [line, isMark, spaced, if_true]
        exact ⟨value, remaining⟩
  | orderedItem isText isNumber =>
      cases same
      obtain ⟨value, remaining⟩ := whole
      simp only [line, isText, isNumber, spaced, Bool.and_self, if_true]
      exact ⟨value, remaining⟩

/-- A line that starts nothing is the elements up to its end. -/
theorem line_of_startsText
    {token : Token}
    (starts : startsText (token :: tokens) = true) :
    line token tokens =
      ((inlineRest (Inline.element .newline token tokens).last
        (Inline.element .newline token tokens).rest).map fun others =>
          (Inline.element .newline token tokens).value :: others).weaken
        (Inline.element .newline token tokens).bounded := by
  unfold line
  extract_lets first plainLine
  have visible : token.kind ≠ .newline := by
    intro newline
    simp [startsText, newline] at starts
  have ordinary : plainLine =
      ((inlineRest first.last first.rest).map fun others =>
        first.value :: others).weaken first.bounded :=
    if_neg visible
  rw [← ordinary]
  unfold startsText at starts
  split <;> simp_all
  intro numbered spaced
  rcases starts with unnumbered | unspaced
  · rw [unnumbered] at numbered
    cases numbered
  · rw [unspaced] at spaced
    cases spaced

/-- A line of text is read as it was derived. -/
theorem leaves_line_of_startsText
    {token : Token}
    (starts : startsText (token :: tokens) = true)
    (derives : Derives (fun _ => false) .newline (token :: tokens) content last
      left)
    (taken : Ending left ending rest) :
    (line token tokens).Leaves (content ++ ending) rest := by
  obtain ⟨value, _, remaining⟩ := derives.isResult
  have visible : ¬(token.kind == .newline || false) = true := by
    intro newline
    simp only [Bool.or_false, beq_iff_eq] at newline
    simp [startsText, newline] at starts
  rw [Inline.elements, if_neg visible] at value remaining
  simp only at value remaining
  have ended := taken.leaves ⟨rfl, remaining⟩
  rw [line_of_startsText starts]
  refine ⟨?_, ended.rest⟩
  rw [← value, List.cons_append, ← ended.value]
  rfl

theorem Block.exists_cons (block : Block tokens elements rest) :
    ∃ token others, tokens = token :: others := by
  cases block with
  | marked marker =>
      cases marker with
      | heading nonempty =>
          obtain ⟨first, others, rfl⟩ := List.exists_cons_of_ne_nil nonempty
          exact ⟨first, _, rfl⟩
      | unorderedItem => exact ⟨_, _, rfl⟩
      | orderedItem => exact ⟨_, _, rfl⟩
  | table row => exact row.exists_cons
  | codeBlock isFence =>
      obtain ⟨first, second, third, rfl⟩ := isFence.exists_ticks
      exact ⟨first, _, rfl⟩
  | text starts =>
      cases tokens with
      | nil => cases starts
      | cons token others => exact ⟨token, others, rfl⟩

/-- A line with a fence is read as a code block. -/
theorem leaves_line_of_codeBlock
    {token : Token}
    (fenced : atFence (token :: tokens) = true)
    (named : takeLine ((token :: tokens).drop 3) = (command, middle))
    (others : (codeLines middle).Leaves lines rest) :
    (line token tokens).Leaves
      [.node .codeBlock
        (fence (token :: tokens) :: command.map .ofToken ++ lines)] rest := by
  obtain ⟨rfl, rfl⟩ := Prod.ext_iff.mp named
  have isBacktick : token.kind = .backtick := by
    match tokens with
    | second :: third :: _ =>
        simp only [atFence, Bool.and_eq_true, beq_iff_eq] at fenced
        exact fenced.1.1
  rw [line_of_atFence isBacktick fenced]
  obtain ⟨rfl, rfl⟩ := others
  exact ⟨rfl, rfl⟩

/-- A line with a derivation is the line that is read. -/
theorem Block.leaves
    {token : Token}
    (block : Block (token :: tokens) elements rest) :
    (line token tokens).Leaves elements rest := by
  generalize same : token :: tokens = all at block
  cases block with
  | marked marker isBlank derives taken =>
      subst same
      exact marker.leaves (by simpa [startsWith] using isBlank)
        (leaves_marked derives taken)
  | table row others =>
      subst same
      obtain ⟨isPipe, rfl, rfl⟩ := row.leaves
      obtain ⟨rfl, rfl⟩ := others.leaves
      simp only [line, isPipe]
      exact ⟨rfl, rfl⟩
  | @codeBlock ticks tokens command middle others rest isFence named lines =>
      have fenced := isFence.atFence tokens
      have glue := isFence.fence tokens
      have after : (ticks ++ tokens).drop 3 = tokens := by
        rw [← isFence.length, List.drop_left]
      rw [← same] at fenced glue after
      rw [← glue]
      exact leaves_line_of_codeBlock fenced (by rw [after]; exact named)
        lines.leaves
  | text starts derives taken =>
      subst same
      exact leaves_line_of_startsText starts derives taken

end Line

namespace Parse

theorem Lines.exists_cons (lines : Lines tokens elements rest) :
    ∃ token others, tokens = token :: others := by
  cases lines with
  | last block => exact block.exists_cons
  | next block => exact block.exists_cons

/-- The lines of a paragraph are read as they were derived. -/
theorem Lines.leaves
    {token : Token}
    (lines : Lines (token :: tokens) elements rest) :
    (paragraphLines token tokens).Leaves elements rest := by
  generalize same : token :: tokens = all at lines
  induction lines generalizing token tokens with
  | last block stops =>
      subst same
      obtain ⟨value, remaining⟩ := block.leaves
      unfold paragraphLines
      simp only
      split
      · rename_i found
        rw [found] at value remaining
        exact ⟨value, remaining⟩
      · rename_i next others bounded found
        rw [found] at value remaining
        simp only at value remaining
        subst remaining
        rw [if_pos (by simpa [Line.atVisible] using stops)]
        exact ⟨value, rfl⟩
  | next block goesOn lines inductionHypothesis =>
      subst same
      obtain ⟨value, remaining⟩ := block.leaves
      unfold paragraphLines
      simp only
      split
      · rename_i found
        rw [found] at remaining
        simp only at remaining
        subst remaining
        cases goesOn
      · rename_i next others bounded found
        rw [found] at value remaining
        simp only at value remaining
        subst value remaining
        obtain ⟨rfl, rfl⟩ := inductionHypothesis rfl
        rw [if_neg (by simpa [Line.atVisible] using goesOn)]
        exact ⟨rfl, rfl⟩

/-- What has a layout is the sections of its tokens. -/
theorem Layout.eq_sections
    (layout : Layout tokens elements) :
    sections tokens = elements := by
  induction layout with
  | nil => rw [sections]
  | blank blank _ inductionHypothesis =>
      rw [sections, if_pos blank, inductionHypothesis]
  | paragraph visible lines _ inductionHypothesis =>
      obtain ⟨token, others, rfl⟩ := lines.exists_cons
      obtain ⟨value, remaining⟩ := lines.leaves
      rw [sections, if_neg (by simpa [Line.atVisible] using visible),
        Parse.paragraph]
      simp only [Parsed.value_map, Parsed.rest_map]
      rw [value, remaining, inductionHypothesis]

end Parse

end Markup
end NotePress
