import NotePress.Markup.Parse
import NotePress.Proofs.Markup.Reading

/-!
# Every rule of the grammar reads what it consumes

For each rule: the elements it answers are made of the tokens between those it
was given and those it left. The statements follow the rules one by one; only the
two that call each other are proved together.
-/

namespace NotePress
namespace Markup

/-! ## Elements within a line -/

namespace Inline

/-- What is found up to a closing delimiter, the delimiter and the rest are all the
tokens. -/
theorem splitAtClosing_append
    {mark : Kind}
    {tokens inside rest : List Token}
    {closing : Token}
    (found : splitAtClosing mark tokens = some (inside, closing, rest)) :
    tokens = inside ++ closing :: rest :=
  (splitAtClosing_eq_some_iff.mp found).1

/-- A node whose first leaf delimits it. -/
theorem reads_opened
    (kind : Kind)
    (inner : kind ≠ .root)
    (opening : Token)
    {tokens rest : List Token}
    {content : List Element}
    (inside : Reads tokens content rest) :
    Reads (opening :: tokens)
      [.node kind (.ofDelimiter opening :: content)] rest :=
  ((Reads.ofDelimiter opening tokens).cons inside).wrap kind inner

/-- A node whose first and last leaves delimit it. -/
theorem reads_enclosed
    (kind : Kind)
    (inner : kind ≠ .root)
    (opening closing : Token)
    {tokens rest : List Token}
    {content : List Element}
    (inside : Reads tokens content (closing :: rest)) :
    Reads (opening :: tokens)
      [.node kind (.ofDelimiter opening :: content ++
        [.ofDelimiter closing])] rest :=
  reads_opened kind inner opening
    (inside.append (.ofDelimiter closing rest))

variable
  (token : Token)
  (rest : List Token)

/-- A token without a meaning of its own is read as plain text. -/
theorem reads_plain :
    Reads (token :: rest) [(plain token rest).value]
      (plain token rest).rest :=
  .ofToken token rest

/-- Verbatim content is read with its delimiters, or its opening delimiter alone. -/
theorem reads_rawSpan
    (kind : Kind)
    (inner : kind ≠ .root) :
    Reads (token :: rest) [(rawSpan kind token rest).value]
      (rawSpan kind token rest).rest := by
  unfold rawSpan
  split
  · exact reads_plain token rest
  · rename_i inside closing after found
    have read := reads_enclosed kind inner token closing
      (Reads.ofTokens inside (closing :: after))
    rwa [← splitAtClosing_append found] at read

/-- A checkbox reads the tokens it is made of. -/
theorem reads_checkbox
    {parsed : Parsed Element rest.length}
    (found : checkbox? token rest = some parsed) :
    Reads (token :: rest) [parsed.value] parsed.rest := by
  unfold checkbox? at found
  split at found
  · rename_i tick closing after
    split at found
    · cases found
      exact reads_enclosed .checkbox (by decide) token closing
        (.ofToken tick _)
    · cases found
  · cases found

/-- A text box reads the tokens it is made of. -/
theorem reads_textbox
    {parsed : Parsed Element rest.length}
    (found : textbox? token rest = some parsed) :
    Reads (token :: rest) [parsed.value] parsed.rest := by
  unfold textbox? at found
  simp only at found
  split at found
  · rename_i closing after remains
    split at found
    · cases found
      have read := reads_enclosed .textbox (by decide) token closing
        (Reads.ofDelimiters
          (rest.takeWhile (·.kind == .underscore)) (closing :: after))
      rwa [← remains, List.takeWhile_append_dropWhile] at read
    · cases found
  · cases found

/-- An opening bracket reads a box, or itself alone. -/
theorem reads_box :
    Reads (token :: rest) [(box token rest).value] (box token rest).rest := by
  unfold box
  cases ticked : checkbox? token rest with
  | some parsed => exact reads_checkbox token rest ticked
  | none =>
      cases blank : textbox? token rest with
      | some parsed => exact reads_textbox token rest blank
      | none => exact reads_plain token rest

/-- A parameter list reads up to its closing brace, or to the end of its line. -/
theorem reads_parameters
    (opening : Token)
    (tokens : List Token) :
    Reads (opening :: tokens) [(parameters opening tokens).value]
      (parameters opening tokens).rest := by
  have inside := fun rest =>
    Reads.ofTokens (tokens.takeWhile isParameter) rest
  unfold parameters
  simp only
  split
  · rename_i closing after remains
    have covered := List.takeWhile_append_dropWhile (p := isParameter)
      (l := tokens)
    rw [remains] at covered
    split
    · have read := reads_enclosed .parameters (by decide) opening closing
        (inside (closing :: after))
      rwa [covered] at read
    · have read := reads_opened .parameters (by decide) opening
        (inside (closing :: after))
      rwa [covered] at read
  · rename_i remains
    have covered := List.takeWhile_append_dropWhile (p := isParameter)
      (l := tokens)
    rw [remains] at covered
    have read := reads_opened .parameters (by decide) opening (inside [])
    rwa [covered] at read

/-- A hashtag reads its name and the parameter list after it, if there is one. -/
theorem reads_hashtag :
    Reads (token :: rest) [(hashtag token rest).value]
      (hashtag token rest).rest := by
  unfold hashtag
  split
  · rename_i opening tokens
    split
    · exact ((Reads.ofToken token _).cons
        (reads_parameters opening tokens)).wrap .hashtag (by decide)
    · exact (Reads.ofToken token _).wrap .hashtag (by decide)
  · exact (Reads.ofToken token _).wrap .hashtag (by decide)

/-- A mention reads its token. -/
theorem reads_mention :
    Reads (token :: rest) [(mention token rest).value]
      (mention token rest).rest :=
  (Reads.ofToken token rest).wrap .mention (by decide)

/-- Every rule that a token alone selects reads what it consumes. -/
theorem reads_simple :
    Reads (token :: rest) [(simple token rest).value]
      (simple token rest).rest := by
  unfold simple
  split
  · exact reads_rawSpan token rest .literal (by decide)
  · exact reads_rawSpan token rest .quotation (by decide)
  · exact reads_box token rest
  · exact reads_hashtag token rest
  · exact reads_mention token rest
  · exact reads_plain token rest

/-- A span reads its opening delimiter, what its content reads, and its closing
delimiter if there is one. -/
theorem reads_closeStyled
    (style : Kind)
    (inner : style ≠ .root)
    (content : Parsed (List Element) bound)
    (inside : Reads rest content.value content.rest) :
    Reads (token :: rest) [(closeStyled style token content).value]
      (closeStyled style token content).rest := by
  obtain ⟨elements, last, after, bounded⟩ := content
  cases after with
  | nil => exact reads_opened style inner token inside
  | cons closing after =>
      unfold closeStyled
      simp only
      split
      · exact reads_enclosed style inner token closing inside
      · exact reads_opened style inner token inside

theorem style_ne_root
    {kind style : Kind}
    (found : kind.style? = some style) :
    style ≠ .root := by
  cases kind <;> cases found <;> decide

/-- The two rules that call each other: an element of a line, and elements up to
some token. -/
theorem reads_element_and_elements :
    (∀ previous token rest,
      Reads (token :: rest) [(element previous token rest).value]
        (element previous token rest).rest) ∧
    ∀ stops previous tokens,
      Reads tokens (elements stops previous tokens).value
        (elements stops previous tokens).rest := by
  apply element.mutual_induct
  case case1 =>
    intro previous token rest style found opened inside
    rw [element]
    split
    · rename_i otherStyle otherFound
      rw [if_pos opened]
      exact reads_closeStyled token rest otherStyle
        (style_ne_root otherFound) _ inside
    · exact reads_simple token rest
  case case2 =>
    intro previous token rest style found closed
    rw [element]
    split
    · rw [if_neg closed]
      exact reads_plain token rest
    · exact reads_simple token rest
  case case3 =>
    intro previous token rest notStyled
    rw [element]
    split
    · rename_i style found
      rw [notStyled] at found
      cases found
    · exact reads_simple token rest
  case case4 =>
    intro stops previous
    rw [elements]
    exact .done []
  case case5 =>
    intro stops previous token rest stopped
    rw [elements, if_pos stopped]
    exact .done (token :: rest)
  case case6 =>
    intro stops previous token rest goesOn first readFirst readOthers _
    rw [elements, if_neg goesOn]
    exact readFirst.cons readOthers

theorem reads_element (previous : Kind) :
    Reads (token :: rest) [(element previous token rest).value]
      (element previous token rest).rest :=
  reads_element_and_elements.1 previous token rest

theorem reads_elements
    (stops : Kind → Bool)
    (previous : Kind)
    (tokens : List Token) :
    Reads tokens (elements stops previous tokens).value
      (elements stops previous tokens).rest :=
  reads_element_and_elements.2 stops previous tokens

end Inline

/-! ## Lines -/

namespace Line

/-- A line and what comes after it are all the tokens. -/
theorem takeLine_append (tokens : List Token) :
    (takeLine tokens).1 ++ (takeLine tokens).2 = tokens := by
  induction tokens with
  | nil => rfl
  | cons first others inductionHypothesis =>
      unfold takeLine
      split
      · rfl
      · rw [List.cons_append, inductionHypothesis]

/-- The tokens of a line as one leaf each. -/
theorem reads_takeLine (tokens : List Token) :
    Reads tokens ((takeLine tokens).1.map .ofToken) (takeLine tokens).2 := by
  have read := Reads.ofTokens (takeLine tokens).1 (takeLine tokens).2
  rwa [takeLine_append] at read

/-- A rule with the line ending after it reads both. -/
theorem reads_withEnding
    {parsed : Parsed (List Element) bound}
    (read : Reads tokens parsed.value parsed.rest) :
    Reads tokens (withEnding parsed).value (withEnding parsed).rest := by
  obtain ⟨elements, last, rest, bounded⟩ := parsed
  cases rest with
  | nil => exact read
  | cons first others =>
      unfold withEnding
      simp only
      split
      · exact read.append (.ofToken first others)
      · exact read

/-- The elements of a line with their line ending read the line. -/
theorem reads_inlineRest
    (previous : Kind)
    (tokens : List Token) :
    Reads tokens (inlineRest previous tokens).value
      (inlineRest previous tokens).rest :=
  reads_withEnding (Inline.reads_elements _ previous tokens)

/-- A line with a marker reads the marker and the rest of the line. -/
theorem reads_marked
    (kind : Kind)
    (inner : kind ≠ .root)
    {marker : Element}
    {before tokens : List Token}
    (readMarker : Reads before [marker] tokens) :
    Reads before (marked kind marker tokens).value
      (marked kind marker tokens).rest := by
  cases tokens with
  | nil => exact readMarker.wrap kind inner
  | cons blank rest =>
      exact (readMarker.cons ((Reads.ofToken blank rest).cons
        (reads_inlineRest blank.kind rest))).wrap kind inner

/-- Some tokens at the front of a list glued into a leaf. -/
theorem reads_take
    (kind : Kind)
    (tokens : List Token)
    (count : Nat)
    (positive : 0 < count)
    (short : count ≤ maximalGlue)
    (enough : count ≤ tokens.length) :
    Reads tokens
      [.leaf kind (String.join ((tokens.take count).map Token.text))]
      (tokens.drop count) := by
  have length : (tokens.take count).length = count :=
    List.length_take_of_le enough
  have read := Reads.glue kind (tokens.take count) (tokens.drop count)
    (List.ne_nil_of_length_pos (by rw [length]; exact positive))
    (by rw [length]; exact short)
  rwa [List.take_append_drop] at read

/-- A heading reads its hashes, its blank and its line. -/
theorem reads_heading
    {level : Nat}
    (token : Token)
    (rest : List Token)
    (found : headingLevel? (token :: rest) = some level) :
    Reads (token :: rest) (heading level token rest).value
      (heading level token rest).rest := by
  unfold headingLevel? at found
  simp only [Option.ite_none_right_eq_some, Bool.and_eq_true, decide_eq_true_eq,
    Option.some.injEq] at found
  obtain ⟨⟨⟨positive, short⟩, _⟩, equal⟩ := found
  rw [equal] at positive short
  have enough : level ≤ (token :: rest).length :=
    equal ▸ (List.takeWhile_prefix _).length_le
  have marker := reads_take .headingMarker (token :: rest) level positive short
    enough
  obtain ⟨fewer, rfl⟩ := Nat.exists_eq_succ_of_ne_zero
    (Nat.ne_of_gt positive)
  exact reads_marked .heading (by decide) marker

/-- Tokens that start with a fence are at least three. -/
theorem length_of_atFence
    {tokens : List Token}
    (fenced : atFence tokens = true) :
    3 ≤ tokens.length := by
  unfold atFence at fenced
  split at fenced
  · simp
  · cases fenced

/-- A fence reads three tokens. -/
theorem reads_fence
    {tokens : List Token}
    (fenced : atFence tokens = true) :
    Reads tokens [fence tokens] (tokens.drop 3) :=
  reads_take .delimiter tokens 3 (by decide) (by decide)
    (length_of_atFence fenced)

/-- The cells of a row read their delimiters and contents. -/
theorem reads_cells (tokens : List Token) :
    Reads tokens (cells tokens).value (cells tokens).rest := by
  unfold cells
  split
  · exact .done []
  · rename_i first rest
    split
    · exact .done (first :: rest)
    · split
      · exact .ofToken first rest
      · have readContent := Inline.reads_elements (fun kind => kind == .pipe)
          .pipe (first :: rest)
        split
        · rename_i content last bar after bounded inside
          rw [inside] at readContent
          split
          · exact (readContent.wrap .tableCell (by decide)).cons
              ((Reads.ofDelimiter bar after).cons (reads_cells after))
          · exact readContent.wrap .tableCell (by decide)
        · rename_i content last bounded inside
          rw [inside] at readContent
          exact readContent.wrap .tableCell (by decide)
termination_by tokens.length

/-- A row of a table reads its line. -/
theorem reads_tableRow
    (bar : Token)
    (rest : List Token) :
    Reads (bar :: rest) [(tableRow bar rest).value] (tableRow bar rest).rest :=
  ((Reads.ofDelimiter bar rest).cons
    (reads_withEnding (reads_cells rest))).wrap .tableRow (by decide)

/-- The rows of a table read their lines. -/
theorem reads_tableRows (tokens : List Token) :
    Reads tokens (tableRows tokens).value (tableRows tokens).rest := by
  induction tokens using tableRows.induct with
  | case1 =>
      rw [tableRows]
      exact .done []
  | case2 bar rest isPipe row _ inductionHypothesis =>
      rw [tableRows, if_pos isPipe]
      exact (reads_tableRow bar rest).cons inductionHypothesis
  | case3 bar rest notPipe =>
      rw [tableRows, if_neg notPipe]
      exact .done (bar :: rest)

/-- The line that closes a code block reads its tokens. -/
theorem reads_closingLine (tokens rest : List Token) :
    Reads (tokens ++ rest) (closingLine tokens) rest := by
  apply Reads.map
  intro token rest
  split
  · exact .ofToken token rest
  · exact .ofDelimiter token rest

/-- The lines of a code block read up to the closing fence and its line. -/
theorem reads_codeLines (tokens : List Token) :
    Reads tokens (codeLines tokens).value (codeLines tokens).rest := by
  induction tokens using codeLines.induct with
  | case1 =>
      rw [codeLines]
      exact .done []
  | case2 first rest fenced =>
      rw [codeLines, if_pos fenced]
      have closing := reads_closingLine
        (takeLine ((first :: rest).drop 3)).1
        (takeLine ((first :: rest).drop 3)).2
      rw [takeLine_append] at closing
      exact (reads_fence fenced).cons closing
  | case3 first rest unfenced _ inductionHypothesis =>
      rw [codeLines, if_neg unfenced]
      exact (reads_takeLine (first :: rest)).append inductionHypothesis

/-- A code block reads its fences and what is between them. -/
theorem reads_codeBlock
    (token : Token)
    (rest : List Token)
    (fenced : atFence (token :: rest) = true) :
    Reads (token :: rest) (codeBlock token rest).value
      (codeBlock token rest).rest :=
  ((reads_fence fenced).cons
    ((reads_takeLine (rest.drop 2)).append
      (reads_codeLines (takeLine (rest.drop 2)).2))).wrap .codeBlock (by decide)

theorem reads_table
    (token : Token)
    (rest : List Token) :
    Reads (token :: rest) (table token rest).value (table token rest).rest :=
  ((reads_tableRow token rest).cons (reads_tableRows _)).wrap .table
    (by decide)

/-- Every rule for a line, selected by the tokens it starts with, reads what it
consumes. -/
theorem reads_line
    (token : Token)
    (rest : List Token) :
    Reads (token :: rest) (line token rest).value (line token rest).rest := by
  unfold line
  extract_lets first plainLine
  have ordinary : Reads (token :: rest) plainLine.value plainLine.rest := by
    unfold plainLine
    split
    · exact .ofToken token rest
    · exact (Inline.reads_element token rest .newline).cons
        (reads_inlineRest _ _)
  have item : Reads (token :: rest) [.leaf .listMarker token.text] rest :=
    .single .listMarker token rest
  have numbered :
      Reads (token :: rest) [.leaf .orderedMarker token.text] rest :=
    .single .orderedMarker token rest
  split
  · split
    · rename_i level found
      exact reads_heading token rest found
    · exact ordinary
  · split
    · exact reads_marked .unorderedItem (by decide) item
    · exact ordinary
  · split
    · exact reads_marked .unorderedItem (by decide) item
    · exact ordinary
  · split
    · exact reads_marked .orderedItem (by decide) numbered
    · exact ordinary
  · exact reads_table token rest
  · split
    · rename_i fenced
      exact reads_codeBlock token rest fenced
    · exact ordinary
  · exact ordinary

end Line

/-! ## Paragraphs and sources -/

namespace Parse

/-- The lines of a paragraph read up to a blank line or the end. -/
theorem reads_paragraphLines
    (token : Token)
    (rest : List Token) :
    Reads (token :: rest) (paragraphLines token rest).value
      (paragraphLines token rest).rest := by
  have readLine := Line.reads_line token rest
  unfold paragraphLines
  simp only
  split
  · rename_i elements last bounded found
    rw [found] at readLine
    exact readLine
  · rename_i elements last next others bounded found
    rw [found] at readLine
    split
    · exact readLine
    · exact readLine.append (reads_paragraphLines next others)
termination_by rest.length

theorem reads_paragraph
    (token : Token)
    (rest : List Token) :
    Reads (token :: rest) [(paragraph token rest).value]
      (paragraph token rest).rest :=
  (reads_paragraphLines token rest).wrap .paragraph (by decide)

/-- The paragraphs and blank lines of a source read all its tokens. -/
theorem reads_sections (tokens : List Token) :
    Reads tokens (sections tokens) [] := by
  induction tokens using sections.induct with
  | case1 =>
      rw [sections]
      exact .done []
  | case2 first rest blank inductionHypothesis =>
      rw [sections, if_pos blank]
      exact (Reads.ofToken first rest).cons inductionHypothesis
  | case3 first rest visible inductionHypothesis =>
      rw [sections, if_neg visible]
      exact (reads_paragraph first rest).cons inductionHypothesis

end Parse

end Markup
end NotePress
