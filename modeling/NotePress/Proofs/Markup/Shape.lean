import NotePress.Proofs.Markup.Sections

/-!
# The shapes of syntax trees

What the elements of a syntax tree look like, one constructor for each thing that
a rule of the grammar makes: elements within a line, rows of a table, children of
a paragraph, and sections of a source. Every rule that is given tokens of the
lexer makes elements of its shape.
-/

namespace NotePress
namespace Markup

namespace Element

/-! ## Elements within a line -/

/-- An element within a line. -/
inductive IsInline : Element → Prop
  | token {token : Token} :
      token.IsLexed →
      token.kind ≠ .newline →
      IsInline (.ofToken token)
  | styled
      {mark : Token}
      {style : Kind}
      {content : List Element}
      (closing : Option Token) :
      mark.kind.style? = some style →
      (∀ child ∈ content, IsInline child) →
      IsInline
        (.node style
          (.ofDelimiter mark :: content ++ closing.toList.map .ofDelimiter))
  | span
      {kind : Kind}
      {opening closing : Token}
      {inside : List Token} :
      (opening.kind = .backtick ∧ kind = .literal ∨
        opening.kind = .quote ∧ kind = .quotation) →
      closing.kind = opening.kind →
      opening.IsLexed →
      closing.IsLexed →
      AllLexed inside →
      IsInline
        (.node kind
          (.ofDelimiter opening :: inside.map .ofToken ++
            [.ofDelimiter closing]))
  | checkbox (opening tick closing : Token) :
      IsInline
        (.node .checkbox
          [.ofDelimiter opening, .ofToken tick, .ofDelimiter closing])
  | textbox
      (opening : Token)
      (blanks : List Token)
      (closing : Token) :
      IsInline
        (.node .textbox
          (.ofDelimiter opening :: blanks.map .ofDelimiter ++
            [.ofDelimiter closing]))
  | hashtag (name : Token) : IsInline (.node .hashtag [.ofToken name])
  | call
      (name opening : Token)
      (inside : List Token)
      (closing : Option Token) :
      IsInline
        (.node .hashtag
          [.ofToken name,
            .node .parameters
              (.ofDelimiter opening :: inside.map .ofToken ++
                closing.toList.map .ofDelimiter)])
  | mention (name : Token) : IsInline (.node .mention [.ofToken name])

/-- A hashtag with an open parameter list is an element within a line. -/
theorem isInline_call_unclosed
    (name opening : Token)
    (inside : List Token) :
    IsInline
      (.node .hashtag
        [.ofToken name,
          .node .parameters (.ofDelimiter opening :: inside.map .ofToken)]) := by
  have call := IsInline.call name opening inside none
  rwa [Option.toList_none, List.map_nil, List.append_nil] at call

/-- A styled span that nothing closes is an element within a line. -/
theorem isInline_styled_unclosed
    {mark : Token}
    {style : Kind}
    {content : List Element}
    (isStyle : mark.kind.style? = some style)
    (inside : ∀ child ∈ content, IsInline child) :
    IsInline (.node style (.ofDelimiter mark :: content)) := by
  have styled := IsInline.styled none isStyle inside
  rwa [Option.toList_none, List.map_nil, List.append_nil] at styled

end Element

open Element (IsInline)

/-! ## Rules for elements within a line -/

namespace Inline

/-- A closing delimiter is of the kind that was looked for. -/
theorem kind_of_splitAtClosing
    {mark : Kind}
    {tokens inside rest : List Token}
    {closing : Token}
    (found : splitAtClosing mark tokens = some (inside, closing, rest)) :
    closing.kind = mark :=
  (splitAtClosing_eq_some_iff.mp found).2.1

variable {token : Token} {rest : List Token}

section

variable (lexed : AllLexed (token :: rest))
variable (visible : token.kind ≠ .newline)

include lexed visible

theorem isInline_plain : IsInline (plain token rest).value :=
  .token lexed.head visible

/-- Verbatim content between its delimiters, or its first delimiter alone, is an element
within a line. -/
theorem isInline_rawSpan
    {kind : Kind}
    (opens : token.kind = .backtick ∧ kind = .literal ∨
      token.kind = .quote ∧ kind = .quotation) :
    IsInline (rawSpan kind token rest).value := by
  unfold rawSpan
  split
  · exact isInline_plain lexed visible
  · rename_i inside closing after found
    have whole := splitAtClosing_append found
    have kindClosing := kind_of_splitAtClosing found
    have each : AllLexed (inside ++ closing :: after) :=
      whole ▸ lexed.of_cons
    exact .span opens kindClosing lexed.head
      (each closing (by simp))
      fun token member => each token (List.mem_append_left _ member)

/-- What an opening bracket starts is an element within a line. -/
theorem isInline_box : IsInline (box token rest).value := by
  unfold box
  cases ticked : checkbox? token rest with
  | some parsed =>
      unfold checkbox? at ticked
      split at ticked
      · split at ticked
        · cases ticked
          exact .checkbox _ _ _
        · cases ticked
      · cases ticked
  | none =>
      cases blank : textbox? token rest with
      | some parsed =>
          unfold textbox? at blank
          simp only at blank
          split at blank
          · split at blank
            · cases blank
              exact .textbox _ _ _
            · cases blank
          · cases blank
      | none => exact isInline_plain lexed visible

omit lexed visible

/-- A hashtag is an element within a line. -/
theorem isInline_hashtag : IsInline (hashtag token rest).value := by
  unfold hashtag
  split
  · split
    · rename_i opening tokens _
      simp only [Parsed.value_weaken, Parsed.value_map]
      unfold parameters
      simp only
      split
      · split
        · exact .call token opening _ (some _)
        · exact Element.isInline_call_unclosed token opening _
      · exact Element.isInline_call_unclosed token opening _
    · exact .hashtag token
  · exact .hashtag token

include lexed visible

/-- Every rule that a token alone selects makes an element within a line. -/
theorem isInline_simple : IsInline (simple token rest).value := by
  unfold simple
  split
  · exact isInline_rawSpan lexed visible (.inl ⟨‹_›, rfl⟩)
  · exact isInline_rawSpan lexed visible (.inr ⟨‹_›, rfl⟩)
  · exact isInline_box lexed visible
  · exact isInline_hashtag
  · exact .mention token
  · exact isInline_plain lexed visible

end

/-- A span of elements within a line is one itself. -/
theorem isInline_closeStyled
    {style : Kind}
    (isStyle : token.kind.style? = some style)
    (content : Parsed (List Element) bound)
    (inside : ∀ child ∈ content.value, IsInline child) :
    IsInline (closeStyled style token content).value := by
  obtain ⟨elements, last, after, bounded⟩ := content
  cases after with
  | nil => exact Element.isInline_styled_unclosed isStyle inside
  | cons closing after =>
      unfold closeStyled
      simp only
      split
      · exact .styled (some closing) isStyle inside
      · exact Element.isInline_styled_unclosed isStyle inside

/-- The two rules that call each other make elements of a line. -/
theorem isInline_element_and_elements :
    (∀ previous token rest, AllLexed (token :: rest) →
      token.kind ≠ .newline →
      IsInline (element previous token rest).value) ∧
    ∀ stops previous tokens, AllLexed tokens →
      ∀ child ∈ (elements stops previous tokens).value, IsInline child := by
  apply element.mutual_induct
  case case1 =>
    intro previous token rest style found opened inside lexed visible
    rw [element]
    split
    · rename_i otherStyle otherFound
      rw [if_pos opened]
      exact isInline_closeStyled otherFound _ (inside lexed.of_cons)
    · exact isInline_simple lexed visible
  case case2 =>
    intro previous token rest style found closed lexed visible
    rw [element]
    split
    · rw [if_neg closed]
      exact isInline_plain lexed visible
    · exact isInline_simple lexed visible
  case case3 =>
    intro previous token rest notStyled lexed visible
    rw [element]
    split
    · rename_i style found
      rw [notStyled] at found
      cases found
    · exact isInline_simple lexed visible
  case case4 =>
    intro stops previous lexed child member
    rw [elements] at member
    cases member
  case case5 =>
    intro stops previous token rest stopped lexed child member
    rw [elements, if_pos stopped] at member
    cases member
  case case6 =>
    intro stops previous token rest goesOn first inFirst inOthers _ lexed
    have visible : token.kind ≠ .newline := by
      intro newline
      exact goesOn (by rw [newline]; rfl)
    rw [elements, if_neg goesOn]
    intro child member
    rcases List.mem_cons.mp member with rfl | later
    · exact inFirst lexed visible
    · exact inOthers
        (lexed.of_suffix (reads_element token rest previous).suffix) child later

theorem isInline_element
    (previous : Kind)
    (lexed : AllLexed (token :: rest))
    (visible : token.kind ≠ .newline) :
    IsInline (element previous token rest).value :=
  isInline_element_and_elements.1 previous token rest lexed visible

theorem isInline_of_mem_elements
    (stops : Kind → Bool)
    (previous : Kind)
    (lexed : AllLexed tokens)
    (child : Element)
    (member : child ∈ (elements stops previous tokens).value) :
    IsInline child :=
  isInline_element_and_elements.2 stops previous tokens lexed child member

end Inline

/-! ## Elements of lines -/

namespace Element

/-- What stands on a line up to its end: elements within the line, and the line
ending if it has one. -/
inductive IsLineContent : List Element → Prop
  | nil : IsLineContent []
  | ending {token : Token} :
      token.IsLexed →
      token.kind = .newline →
      IsLineContent [.ofToken token]
  | cons :
      IsInline first →
      IsLineContent others →
      IsLineContent (first :: others)

/-- A part of a table row: a bar, a blank or line ending after the last bar, or a
cell. -/
inductive IsRowPart : Element → Prop
  | bar (token : Token) : IsRowPart (.ofDelimiter token)
  | blank {token : Token} :
      token.IsLexed →
      token.kind = .whitespace ∨ token.kind = .newline →
      IsRowPart (.ofToken token)
  | cell {content : List Element} :
      (∀ child ∈ content, IsInline child) →
      IsRowPart (.node .tableCell content)

/-- A row of a table. -/
inductive IsRow : Element → Prop
  | row {parts : List Element} :
      (∀ part ∈ parts, IsRowPart part) →
      IsRow (.node .tableRow parts)

/-- The kinds of the nodes that a marker opens, with the kind of the marker. -/
inductive IsMarked : Kind → Kind → Prop
  | heading : IsMarked .headingMarker .heading
  | unorderedItem : IsMarked .listMarker .unorderedItem
  | orderedItem : IsMarked .orderedMarker .orderedItem

/-- An element directly in a paragraph. -/
inductive IsLine : Element → Prop
  | inline : IsInline element → IsLine element
  | ending {token : Token} :
      token.IsLexed →
      token.kind = .newline →
      IsLine (.ofToken token)
  | marked
      {markerKind kind : Kind}
      (marker : String)
      {content : List Element} :
      IsMarked markerKind kind →
      IsLineContent content →
      IsLine (.node kind (.leaf markerKind marker :: content))
  | table {rows : List Element} :
      (∀ row ∈ rows, IsRow row) →
      IsLine (.node .table rows)
  | codeBlock {children : List Element} :
      (∀ child ∈ children, ∃ kind text, child = .leaf kind text) →
      IsLine (.node .codeBlock children)

/-- A paragraph, or a token of a blank line. -/
inductive IsSection : Element → Prop
  | blank {token : Token} :
      token.IsLexed →
      token.kind = .whitespace ∨ token.kind = .newline →
      IsSection (.ofToken token)
  | paragraph {children : List Element} :
      (∀ child ∈ children, IsLine child) →
      IsSection (.node .paragraph children)

/-- What stands on a line may stand directly in a paragraph. -/
theorem IsLineContent.isLine
    (content : IsLineContent elements) :
    ∀ child ∈ elements, IsLine child := by
  induction content with
  | nil =>
      intro child member
      cases member
  | ending lexed newline =>
      intro child member
      rw [List.mem_singleton.mp member]
      exact .ending lexed newline
  | cons inline _ inductionHypothesis =>
      intro child member
      rcases List.mem_cons.mp member with rfl | later
      · exact .inline inline
      · exact inductionHypothesis child later

/-- Elements in front of what stands on a line stand on the line. -/
theorem isLineContent_of_inline
    {elements : List Element}
    (inline : ∀ child ∈ elements, IsInline child)
    (ending : IsLineContent others) :
    IsLineContent (elements ++ others) := by
  induction elements with
  | nil => exact ending
  | cons first rest inductionHypothesis =>
      exact .cons (inline first List.mem_cons_self)
        (inductionHypothesis fun child member =>
          inline child (List.mem_cons_of_mem first member))

end Element

open Element (IsLineContent IsRowPart IsRow IsMarked IsLine IsSection)

namespace Line

variable {token : Token} {tokens rest : List Token}

/-- Elements with the line ending after them stand on a line. -/
theorem isLineContent_withEnding
    {parsed : Parsed (List Element) bound}
    (inline : ∀ child ∈ parsed.value, IsInline child)
    (lexed : AllLexed parsed.rest) :
    IsLineContent (withEnding parsed).value := by
  obtain ⟨elements, last, rest, bounded⟩ := parsed
  have alone := Element.isLineContent_of_inline inline .nil
  rw [List.append_nil] at alone
  cases rest with
  | nil => exact alone
  | cons first others =>
      unfold withEnding
      simp only
      split
      · exact Element.isLineContent_of_inline inline
          (.ending lexed.head ‹_›)
      · exact alone

/-- The rest of a line stands on the line. -/
theorem isLineContent_inlineRest
    (previous : Kind)
    (lexed : AllLexed tokens) :
    IsLineContent (inlineRest previous tokens).value :=
  isLineContent_withEnding (Inline.isInline_of_mem_elements _ previous lexed)
    (lexed.of_suffix (Inline.reads_elements _ previous tokens).suffix)

/-- The one node that a marker opens. -/
theorem isLine_marked
    {markerKind kind : Kind}
    (isMarked : IsMarked markerKind kind)
    (marker : String)
    (lexed : AllLexed tokens)
    (spaced : startsWith .whitespace tokens = true) :
    ∀ child ∈ (marked kind (.leaf markerKind marker) tokens).value,
      IsLine child := by
  cases tokens with
  | nil => cases spaced
  | cons blank rest =>
      have space : blank.kind = .whitespace := eq_of_beq spaced
      intro child member
      rw [List.mem_singleton.mp member]
      exact .marked marker isMarked
        (.cons (.token lexed.head (by rw [space]; decide))
          (isLineContent_inlineRest blank.kind lexed.of_cons))

/-- The cells of a row, and what is between them, are parts of a row. -/
theorem isRowPart_cells
    (tokens : List Token)
    (lexed : AllLexed tokens) :
    ∀ part ∈ (cells tokens).value, IsRowPart part := by
  unfold cells
  split
  · intro part member
    cases member
  · rename_i first rest
    split
    · intro part member
      cases member
    · split
      · rename_i spaced
        intro part member
        rw [List.mem_singleton.mp member]
        exact .blank lexed.head (.inl spaced.1)
      · have inline := Inline.isInline_of_mem_elements
          (fun kind => kind == .pipe) .pipe lexed
        have left := lexed.of_suffix (Inline.reads_elements
          (fun kind => kind == .pipe) .pipe (first :: rest)).suffix
        split
        · rename_i content last bar after bounded inside
          rw [inside] at inline left
          split
          · intro part member
            rcases List.mem_cons.mp member with rfl | later
            · exact .cell inline
            · rcases List.mem_cons.mp later with rfl | others
              · exact .bar bar
              · exact isRowPart_cells after left.of_cons part others
          · intro part member
            rw [List.mem_singleton.mp member]
            exact .cell inline
        · rename_i inside
          rw [inside] at inline
          intro part member
          rw [List.mem_singleton.mp member]
          exact .cell inline
termination_by tokens.length

/-- A rule with a line ending adds at most a line ending. -/
theorem mem_withEnding
    {parsed : Parsed (List Element) bound}
    {element : Element}
    (member : element ∈ (withEnding parsed).value) :
    element ∈ parsed.value ∨
      ∃ token ∈ parsed.rest, token.kind = .newline ∧
        element = .ofToken token := by
  obtain ⟨elements, last, rest, bounded⟩ := parsed
  cases rest with
  | nil => exact .inl member
  | cons first others =>
      unfold withEnding at member
      simp only at member
      split at member
      · rename_i newline
        rcases List.mem_append.mp member with inside | here
        · exact .inl inside
        · exact .inr ⟨first, List.mem_cons_self, newline,
            List.mem_singleton.mp here⟩
      · exact .inl member

/-- A row of a table has the shape of one. -/
theorem isRow_tableRow
    (bar : Token)
    (lexed : AllLexed rest) :
    IsRow (tableRow bar rest).value := by
  apply IsRow.row
  intro part member
  rcases List.mem_cons.mp member with rfl | inside
  · exact .bar bar
  · rcases mem_withEnding inside with cell | ⟨token, left, newline, rfl⟩
    · exact isRowPart_cells rest lexed part cell
    · exact .blank
        (lexed.of_suffix (reads_cells rest).suffix token left) (.inr newline)

/-- The rows of a table have the shape of rows. -/
theorem isRow_of_mem_tableRows
    (tokens : List Token)
    (lexed : AllLexed tokens) :
    ∀ row ∈ (tableRows tokens).value, IsRow row := by
  induction tokens using tableRows.induct with
  | case1 =>
      rw [tableRows]
      intro row member
      cases member
  | case2 bar rest isPipe row _ inductionHypothesis =>
      rw [tableRows, if_pos isPipe]
      intro element member
      rcases List.mem_cons.mp member with rfl | later
      · exact isRow_tableRow bar lexed.of_cons
      · exact inductionHypothesis
          (lexed.of_suffix (reads_tableRow bar rest).suffix) element later
  | case3 bar rest notPipe =>
      rw [tableRows, if_neg notPipe]
      intro row member
      cases member

/-- The one node that a table is. -/
theorem isLine_table
    (lexed : AllLexed (token :: rest)) :
    ∀ child ∈ (table token rest).value, IsLine child := by
  intro child member
  rw [List.mem_singleton.mp member]
  apply IsLine.table
  intro row isRow
  rcases List.mem_cons.mp isRow with rfl | later
  · exact isRow_tableRow token lexed.of_cons
  · exact isRow_of_mem_tableRows _
      (lexed.of_suffix (reads_tableRow token rest).suffix) row later

/-- The lines of a code block are leaves. -/
theorem isLeaf_codeLines (tokens : List Token) :
    ∀ child ∈ (codeLines tokens).value,
      ∃ kind text, child = Element.leaf kind text := by
  induction tokens using codeLines.induct with
  | case1 =>
      rw [codeLines]
      intro child member
      cases member
  | case2 first rest fenced =>
      rw [codeLines, if_pos fenced]
      intro child member
      rcases List.mem_cons.mp member with rfl | closing
      · exact ⟨_, _, rfl⟩
      · obtain ⟨token, _, rfl⟩ := List.mem_map.mp closing
        split
        · exact ⟨_, _, rfl⟩
        · exact ⟨_, _, rfl⟩
  | case3 first rest unfenced _ inductionHypothesis =>
      rw [codeLines, if_neg unfenced]
      intro child member
      rcases List.mem_append.mp member with here | later
      · obtain ⟨token, _, rfl⟩ := List.mem_map.mp here
        exact ⟨_, _, rfl⟩
      · exact inductionHypothesis child later

/-- The one node that a code block is. -/
theorem isLine_codeBlock
    (token : Token)
    (rest : List Token) :
    ∀ child ∈ (codeBlock token rest).value, IsLine child := by
  intro child member
  rw [List.mem_singleton.mp member]
  apply IsLine.codeBlock
  intro inner isInner
  rcases List.mem_append.mp isInner with first | later
  · rcases List.mem_cons.mp first with rfl | named
    · exact ⟨_, _, rfl⟩
    · obtain ⟨token, _, rfl⟩ := List.mem_map.mp named
      exact ⟨_, _, rfl⟩
  · exact isLeaf_codeLines _ inner later

/-- A heading may stand directly in a paragraph. -/
theorem isLine_heading
    {level : Nat}
    (lexed : AllLexed (token :: rest))
    (found : headingLevel? (token :: rest) = some level) :
    ∀ child ∈ (heading level token rest).value, IsLine child := by
  obtain ⟨_, spaced⟩ := startsWith_of_headingLevel found
  exact isLine_marked .heading _
    (lexed.of_cons.of_suffix (List.drop_suffix (level - 1) rest)) spaced

/-- Whatever a line is, it may stand directly in a paragraph. -/
theorem isLine_line
    (token : Token)
    (rest : List Token)
    (lexed : AllLexed (token :: rest)) :
    ∀ child ∈ (line token rest).value, IsLine child := by
  unfold line
  extract_lets first plainLine
  have ordinary : ∀ child ∈ plainLine.value, IsLine child := by
    unfold plainLine
    split
    · rename_i newline
      intro child member
      rw [List.mem_singleton.mp member]
      exact .ending lexed.head newline
    · rename_i visible
      apply IsLineContent.isLine
      exact .cons (Inline.isInline_element .newline lexed visible)
        (isLineContent_inlineRest first.last
          (lexed.of_suffix (Inline.reads_element token rest .newline).suffix))
  split
  · split
    · exact isLine_heading lexed ‹_›
    · exact ordinary
  · split
    · exact isLine_marked .unorderedItem token.text lexed.of_cons ‹_›
    · exact ordinary
  · split
    · exact isLine_marked .unorderedItem token.text lexed.of_cons ‹_›
    · exact ordinary
  · split
    · rename_i numbered
      rw [Bool.and_eq_true] at numbered
      exact isLine_marked .orderedItem token.text lexed.of_cons numbered.2
    · exact ordinary
  · exact isLine_table lexed
  · split
    · exact isLine_codeBlock token rest
    · exact ordinary
  · exact ordinary

end Line

/-! ## Paragraphs and sources -/

namespace Parse

/-- The lines of a paragraph have the shapes of lines. -/
theorem isLine_of_mem_paragraphLines
    (token : Token)
    (rest : List Token)
    (lexed : AllLexed (token :: rest)) :
    ∀ child ∈ (paragraphLines token rest).value, IsLine child := by
  have isLine := Line.isLine_line token rest lexed
  have left := lexed.of_suffix (Line.reads_line token rest).suffix
  unfold paragraphLines
  simp only
  split
  · rename_i found
    rw [found] at isLine
    exact isLine
  · rename_i elements last next others bounded found
    rw [found] at isLine left
    split
    · exact isLine
    · intro child member
      rcases List.mem_append.mp member with here | later
      · exact isLine child here
      · exact isLine_of_mem_paragraphLines next others left child later
termination_by rest.length

/-- The sections of a source have the shapes of sections. -/
theorem isSection_of_mem_sections
    (tokens : List Token)
    (lexed : AllLexed tokens) :
    ∀ element ∈ sections tokens, IsSection element := by
  induction tokens using sections.induct with
  | case1 =>
      rw [sections]
      intro element member
      cases member
  | case2 first rest blank inductionHypothesis =>
      rw [sections, if_pos blank]
      intro element member
      rcases List.mem_cons.mp member with rfl | later
      · apply IsSection.blank lexed.head
        simp only [atBlankLine, Bool.or_eq_true, Bool.and_eq_true, beq_iff_eq]
          at blank
        exact blank.symm.imp_left And.left
      · exact inductionHypothesis lexed.of_cons element later
  | case3 first rest visible inductionHypothesis =>
      rw [sections, if_neg visible]
      intro element member
      rcases List.mem_cons.mp member with rfl | later
      · exact .paragraph (isLine_of_mem_paragraphLines first rest lexed)
      · exact inductionHypothesis
          (lexed.of_suffix (reads_paragraph first rest).suffix) element later

end Parse

/-- The children of the tree of a source are sections. -/
theorem isSection_of_mem_parse
    (source : String)
    (element : Element)
    (member : element ∈ (parse source).children) :
    IsSection element :=
  Parse.isSection_of_mem_sections _ (allLexed_lex source) element member

end Markup
end NotePress
