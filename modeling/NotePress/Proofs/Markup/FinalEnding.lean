import NotePress.Proofs.Markup.LineEndings
import NotePress.Proofs.Markup.TreeGrammar

/-!
# A line ending for the last line

The grammar treats the end of a source like the end of a line. So a source whose
last line has no ending keeps its tree when it gets one: the ending becomes the
last leaf of the innermost node that ends the source and takes line endings
(`parse_lineFeed`).
-/

namespace NotePress
namespace Markup

/-- The kinds of the nodes that line endings stand in. -/
def Kind.takesEnding : Kind → Bool
  | root | paragraph | heading | orderedItem | unorderedItem | table | tableRow
  | codeBlock => true
  | _ => false

namespace Element

mutual

/-- An element with an ending for the last line in it, or after it. -/
def endLine (ending : Token) : Element → List Element
  | leaf kind text => [leaf kind text, .ofToken ending]
  | node kind children =>
      if kind.takesEnding then
        [node kind (endLines ending children)]
      else
        [node kind children, .ofToken ending]

/-- Elements with an ending for the last line. -/
def endLines (ending : Token) : List Element → List Element
  | [] => [.ofToken ending]
  | first :: [] => endLine ending first
  | first :: second :: others => first :: endLines ending (second :: others)

end

variable {ending : Token}

/-- The ending goes behind the last element. -/
theorem endLines_cons
    (first : Element)
    (nonempty : others ≠ []) :
    endLines ending (first :: others) = first :: endLines ending others := by
  obtain ⟨second, later, rfl⟩ := List.exists_cons_of_ne_nil nonempty
  rw [endLines]

/-- Elements in front of others are left alone. -/
theorem endLines_append
    (front : List Element)
    (nonempty : back ≠ []) :
    endLines ending (front ++ back) = front ++ endLines ending back := by
  induction front with
  | nil => rfl
  | cons first others inductionHypothesis =>
      rw [List.cons_append, endLines_cons first (by simp [nonempty]),
        inductionHypothesis, List.cons_append]

/-- Whether line endings stand after an element and not in it. -/
def endsBefore : Element → Bool
  | leaf _ _ => true
  | node kind _ => !kind.takesEnding

/-- After elements that take no ending, it stands for itself. -/
theorem endLines_of_endsBefore
    {elements : List Element}
    (ends : ∀ element ∈ elements, element.endsBefore = true) :
    endLines ending elements = elements ++ [.ofToken ending] := by
  induction elements with
  | nil => rfl
  | cons first others inductionHypothesis =>
      cases others with
      | nil =>
          cases first with
          | leaf kind text => rfl
          | node kind children =>
              have outside : kind.takesEnding = false := by
                simpa [endsBefore] using ends _ List.mem_cons_self
              rw [endLines, endLine, outside]
              rfl
      | cons second others =>
          rw [endLines_cons first (List.cons_ne_nil second others),
            inductionHypothesis fun element member =>
              ends element (List.mem_cons_of_mem first member)]
          rfl

/-- A node that takes endings takes the one for its last line. -/
theorem endLines_node
    {kind : Kind}
    (takes : kind.takesEnding = true)
    (children : List Element) :
    endLines ending [node kind children] =
      [node kind (endLines ending children)] := by
  rw [endLines, endLine, if_pos takes]

end Element

/-! ## Tokens without a line ending at the end -/

/-- Tokens of the lexer whose last line has no ending. -/
structure LeftOpen (tokens : List Token) : Prop where
  lexed : AllLexed tokens
  visible : EndsIn (·.kind ≠ .newline) tokens

namespace LeftOpen

theorem of_suffix
    (leftOpen : LeftOpen tokens)
    (isSuffix : rest <:+ tokens) :
    LeftOpen rest :=
  ⟨leftOpen.lexed.of_suffix isSuffix, leftOpen.visible.of_suffix isSuffix⟩

theorem of_cons
    (leftOpen : LeftOpen (first :: others)) :
    LeftOpen others :=
  leftOpen.of_suffix (List.suffix_cons first others)

theorem of_append
    {front back : List Token}
    (leftOpen : LeftOpen (front ++ back)) :
    LeftOpen back :=
  leftOpen.of_suffix (List.suffix_append front back)

/-- A line ending is not the last token. -/
theorem ne_nil
    (leftOpen : LeftOpen (first :: others))
    (newline : first.kind = .newline) :
    others ≠ [] :=
  leftOpen.visible.ne_nil fun visible => visible newline

end LeftOpen

/-! ## In front of the end of a line -/

section

variable {more : List Token}

namespace Line

variable (ended : atLineEnd more = true)

include ended

/-- Tokens in front of the end of a line end their own line where they did. -/
theorem atLineEnd_append_of_atLineEnd (tokens : List Token) :
    atLineEnd (tokens ++ more) = atLineEnd tokens := by
  cases tokens with
  | nil => exact ended
  | cons first others => rfl

theorem startsWith_append_of_atLineEnd
    {kind : Kind}
    (visible : kind ≠ .newline)
    (tokens : List Token) :
    startsWith kind (tokens ++ more) = startsWith kind tokens := by
  cases tokens with
  | cons first others => rfl
  | nil =>
      rcases eq_nil_or_newline_of_atLineEnd ended with
        rfl | ⟨ending, others, rfl, newline⟩
      · rfl
      · simp [startsWith, newline, visible.symm]

/-- What comes after tokens does not change whether they start with a blank line. -/
theorem atBlankLine_append_of_atLineEnd
    (nonempty : tokens ≠ []) :
    Parse.atBlankLine (tokens ++ more) = Parse.atBlankLine tokens := by
  obtain ⟨first, others, rfl⟩ := List.exists_cons_of_ne_nil nonempty
  rw [List.cons_append, Parse.atBlankLine, Parse.atBlankLine,
    atLineEnd_append_of_atLineEnd ended]

/-- What comes after tokens does not change whether a paragraph goes on with them. -/
theorem atVisible_append_of_atLineEnd
    (nonempty : tokens ≠ []) :
    atVisible (tokens ++ more) = atVisible tokens := by
  obtain ⟨first, others, rfl⟩ := List.exists_cons_of_ne_nil nonempty
  rw [atVisible, atVisible, atBlankLine_append_of_atLineEnd ended nonempty]
  rfl

/-- In front of the end of a line, tokens start with the same heading as at the end of
the source. -/
theorem headingLevel_append_of_atLineEnd (tokens : List Token) :
    headingLevel? (tokens ++ more) = headingLevel? tokens := by
  have nothing := takeWhile_eq_nil_of_atLineEnd ended (·.kind == .hash)
    (by intro token newline; rw [newline]; rfl)
  unfold headingLevel?
  rw [takeWhile_append_of_eq_nil tokens nothing,
    dropWhile_append_of_eq_nil tokens nothing,
    startsWith_append_of_atLineEnd ended (by decide)]

/-- The end of a line adds no backtick to a fence. -/
theorem atFence_append_of_atLineEnd (tokens : List Token) :
    atFence (tokens ++ more) = atFence tokens := by
  rcases eq_nil_or_newline_of_atLineEnd ended with
    rfl | ⟨ending, others, rfl, newline⟩
  · rw [List.append_nil]
  · rcases tokens with _ | ⟨first, _ | ⟨second, _ | ⟨third, rest⟩⟩⟩
    · rcases others with _ | ⟨fourth, _ | ⟨fifth, rest⟩⟩
      · rfl
      · rfl
      · simp [atFence, newline]
    · cases others <;> simp [atFence, newline]
    · simp [atFence, newline]
    · rfl

/-- A line that starts with text still does in front of the end of a line. -/
theorem startsText_append_of_atLineEnd
    (starts : startsText tokens = true) :
    startsText (tokens ++ more) = true := by
  cases tokens with
  | nil => cases starts
  | cons token rest =>
      have level := headingLevel_append_of_atLineEnd ended (token :: rest)
      have fenced := atFence_append_of_atLineEnd ended (token :: rest)
      rw [List.cons_append] at level fenced
      rw [← starts, List.cons_append]
      simp only [startsText, level, fenced,
        startsWith_append_of_atLineEnd ended
          (show Kind.whitespace ≠ .newline by decide)]

end Line

/-- Elements of a line are the same in front of the end of a line. -/
theorem Inline.Derives.append
    (derives : Derives stops previous tokens content last rest)
    (ended : Line.atLineEnd more = true) :
    Derives stops previous (tokens ++ more) content last (rest ++ more) := by
  obtain ⟨left, _, rfl, before⟩ := derives.before
  have longer := before (afterLine tokens ++ more) (by
    rw [Line.atLineEnd_append_of_atLineEnd ended, atLineEnd_afterLine])
  rwa [← List.append_assoc, currentLine_append_afterLine, ← List.append_assoc]
    at longer

namespace Line

/-- The cells of a row are the same in front of the end of a line. -/
theorem Cells.append
    (cells : Cells tokens parts rest)
    (ended : Line.atLineEnd more = true) :
    Cells (tokens ++ more) parts (rest ++ more) := by
  induction cells with
  | done stops =>
      exact .done ((atLineEnd_append_of_atLineEnd ended _).trans stops)
  | blank space stops =>
      exact .blank space ((atLineEnd_append_of_atLineEnd ended _).trans stops)
  | cell visible inside isPipe _ inductionHypothesis =>
      exact .cell
        ((atVisible_append_of_atLineEnd ended
          (ne_nil_of_atVisible visible)).trans visible)
        (inside.append ended) isPipe inductionHypothesis
  | lastCell visible inside stops =>
      exact .lastCell
        ((atVisible_append_of_atLineEnd ended
          (ne_nil_of_atVisible visible)).trans visible)
        (inside.append ended)
        ((atLineEnd_append_of_atLineEnd ended _).trans stops)

/-- A marker is the same whatever comes after the tokens. -/
theorem Marker.append
    (marker : Marker tokens kind element rest)
    (more : List Token) :
    Marker (tokens ++ more) kind element (rest ++ more) := by
  cases marker with
  | heading nonempty short isHash =>
      rw [List.append_assoc]
      exact .heading nonempty short isHash
  | unorderedItem isMark => exact .unorderedItem isMark
  | orderedItem isText isNumber => exact .orderedItem isText isNumber

end Line

end

/-! ## A line ending for the last line -/

section

variable {ending : Token} (newline : ending.kind = .newline)

include newline

theorem atLineEnd_singleton : Line.atLineEnd [ending] = true := by
  simp [Line.atLineEnd, newline]

namespace Line

omit newline in
/-- A line that was left open has no ending. -/
theorem Ending.eq_nil
    (taken : Ending left elements [])
    (leftOpen : LeftOpen left) :
    left = [] ∧ elements = [] := by
  cases taken with
  | taken isNewline => exact absurd rfl (leftOpen.ne_nil isNewline)
  | missing => exact ⟨rfl, rfl⟩

omit newline in
/-- A line with something after it keeps its ending. -/
theorem Ending.append_of_ne_nil
    (taken : Ending left elements rest)
    (more : List Token)
    (goesOn : rest ≠ []) :
    Ending (left ++ more) elements (rest ++ more) := by
  cases taken with
  | taken isNewline => exact .taken isNewline
  | missing => exact absurd rfl goesOn

theorem ending_singleton : Ending [ending] [.ofToken ending] [] :=
  .taken newline

omit newline in
/-- Line endings stand after the elements of a line, not in them. -/
theorem endsBefore_of_inline
    (derives : Inline.Derives stops previous tokens content last rest)
    (lexed : AllLexed tokens) :
    ∀ element ∈ content, element.endsBefore = true := by
  intro element member
  cases derives.isMember lexed element member with
  | token => rfl
  | @node kind children inline =>
      cases kind <;> first | rfl | cases inline

/-! ### Tables -/

/-- A row that is not the last one keeps its ending. -/
theorem Row.append
    {element : Element}
    (row : Row tokens element rest)
    (goesOn : rest ≠ []) :
    Row (tokens ++ [ending]) element (rest ++ [ending]) := by
  cases row with
  | row isPipe cells taken =>
      exact .row isPipe (cells.append (atLineEnd_singleton newline))
        (taken.append_of_ne_nil _ goesOn)

/-- The last row of a source gets the ending. -/
theorem Row.ended
    {element : Element}
    (row : Row tokens element [])
    (leftOpen : LeftOpen tokens) :
    ∃ other, element.endLine ending = [other] ∧
      Row (tokens ++ [ending]) other [] := by
  cases row with
  | @row tokens parts middle taken _ bar isPipe cells ended =>
      have suffix := cells.suffix.trans (List.suffix_cons bar tokens)
      obtain ⟨rfl, rfl⟩ := ended.eq_nil (leftOpen.of_suffix suffix)
      refine ⟨.node .tableRow (.ofDelimiter bar :: parts ++ [.ofToken ending]),
        ?_, ?_⟩
      · have ends : ∀ part ∈ .ofDelimiter bar :: parts,
            part.endsBefore = true := by
          intro part member
          rcases List.mem_cons.mp member with rfl | inParts
          · rfl
          · cases part with
            | leaf => rfl
            | node kind children =>
                rw [cells.kind_eq inParts]
                rfl
        have takes : Kind.tableRow.takesEnding = true := rfl
        rw [Element.endLine, if_pos takes, List.append_nil,
          Element.endLines_of_endsBefore ends]
      · exact .row isPipe (cells.append (atLineEnd_singleton newline))
          (ending_singleton newline)

omit newline in
theorem Row.ne_nil
    {element : Element}
    (row : Row tokens element rest) :
    tokens ≠ [] := by
  obtain ⟨_, _, rfl⟩ := row.exists_cons
  exact List.cons_ne_nil _ _

/-- Rows with something after them keep their endings. -/
theorem Rows.append
    (rows : Rows tokens elements rest)
    (goesOn : rest ≠ []) :
    Rows (tokens ++ [ending]) elements (rest ++ [ending]) := by
  induction rows with
  | done other =>
      refine .done ((startsWith_append_of_atLineEnd
        (atLineEnd_singleton newline) (by decide) _).trans other)
  | @next _ _ middle _ _ row rows inductionHypothesis =>
      have later : middle ≠ [] := by
        rintro rfl
        exact goesOn rows.eq_nil.2
      exact .next (row.append newline later) (inductionHypothesis goesOn)

/-- The last row of a table gets the ending. -/
theorem Rows.ended
    {element : Element}
    (row : Row tokens element middle)
    (rows : Rows middle others rest)
    (nothing : rest = [])
    (leftOpen : LeftOpen tokens) :
    ∃ first later between,
      Element.endLines ending (element :: others) = first :: later ∧
      Row (tokens ++ [ending]) first between ∧ Rows between later [] := by
  induction rows generalizing tokens element with
  | done other =>
      subst nothing
      obtain ⟨last, same, row⟩ := row.ended newline leftOpen
      exact ⟨last, [], [], same, row, .done rfl⟩
  | next second _ inductionHypothesis =>
      obtain ⟨first, later, between, same, isRow, areRows⟩ :=
        inductionHypothesis second nothing (leftOpen.of_suffix row.suffix)
      refine ⟨element, first :: later, _, ?_,
        row.append newline second.ne_nil, .next isRow areRows⟩
      rw [Element.endLines_cons _ (List.cons_ne_nil _ _), same]

/-! ### Code blocks -/

omit newline in
/-- A line with something after it is taken the same in front of more. -/
theorem takeLine_append_of_ne_nil
    {current rest : List Token}
    (taken : takeLine tokens = (current, rest))
    (goesOn : rest ≠ [])
    (more : List Token) :
    takeLine (tokens ++ more) = (current, rest ++ more) := by
  induction tokens generalizing current with
  | nil =>
      cases taken
      exact absurd rfl goesOn
  | cons first others inductionHypothesis =>
      rw [takeLine] at taken
      rw [List.cons_append, takeLine]
      split at taken
      · cases taken
        rw [if_pos ‹_›]
      · obtain ⟨rfl, isRest⟩ := Prod.mk.inj taken
        rw [if_neg ‹_›, inductionHypothesis (Prod.ext rfl isRest)]

/-- A last line without an ending is taken with the one that it gets. -/
theorem takeLine_ended
    {current : List Token}
    (taken : takeLine tokens = (current, []))
    (leftOpen : LeftOpen tokens) :
    takeLine (tokens ++ [ending]) = (current ++ [ending], []) := by
  induction tokens generalizing current with
  | nil =>
      cases taken
      rw [List.nil_append, takeLine, if_pos newline]
  | cons first others inductionHypothesis =>
      rw [takeLine] at taken
      rw [List.cons_append, takeLine]
      split at taken
      · cases taken
        exact absurd rfl (leftOpen.ne_nil ‹_›)
      · rename_i visible
        obtain ⟨rfl, nothing⟩ := Prod.mk.inj taken
        rw [if_neg visible, inductionHypothesis
          (Prod.ext rfl nothing) leftOpen.of_cons]
        rfl

omit newline in
theorem CodeLines.eq_nil (lines : CodeLines [] elements rest) :
    elements = [] ∧ rest = [] := by
  generalize nothing : ([] : List Token) = tokens at lines
  cases lines with
  | missing => exact ⟨rfl, rfl⟩
  | fence isFence =>
      obtain ⟨_, _, _, rfl⟩ := isFence.exists_ticks
      cases nothing
  | line => cases nothing

/-- The lines of a code block keep their endings when something is after them. -/
theorem CodeLines.append
    (lines : CodeLines tokens elements rest)
    (goesOn : rest ≠ []) :
    CodeLines (tokens ++ [ending]) elements (rest ++ [ending]) := by
  induction lines with
  | missing => exact absurd rfl goesOn
  | fence isFence taken =>
      rw [List.append_assoc]
      exact .fence isFence (takeLine_append_of_ne_nil taken goesOn _)
  | @line first tokens code middle others rest unfenced taken lines
      inductionHypothesis =>
      have later : middle ≠ [] := by
        rintro rfl
        exact goesOn lines.eq_nil.2
      exact .line
        ((atFence_append_of_atLineEnd (atLineEnd_singleton newline) _).trans
          unfenced)
        (takeLine_append_of_ne_nil taken later _) (inductionHypothesis goesOn)

omit newline in
theorem suffix_of_takeLine
    {current rest : List Token}
    (taken : takeLine tokens = (current, rest)) :
    rest <:+ tokens := by
  have suffix := suffix_takeLine tokens
  rwa [taken] at suffix

/-- The ending of the line that closes a code block is a leaf after it. -/
theorem closingLine_append_singleton (tokens : List Token) :
    closingLine (tokens ++ [ending]) =
      closingLine tokens ++ [.ofToken ending] := by
  simp [closingLine, newline]

/-- The last line of a code block gets the ending. -/
theorem CodeLines.ended
    (lines : CodeLines tokens elements rest)
    (nothing : rest = [])
    (nonempty : tokens ≠ [])
    (leftOpen : LeftOpen tokens) :
    CodeLines (tokens ++ [ending]) (elements ++ [.ofToken ending]) [] := by
  induction lines with
  | missing => exact absurd rfl nonempty
  | fence isFence taken =>
      subst nothing
      rw [List.append_assoc, List.cons_append,
        ← closingLine_append_singleton newline]
      exact .fence isFence (takeLine_ended newline taken leftOpen.of_append)
  | @line first tokens code middle others rest unfenced taken lines
      inductionHypothesis =>
      have stillUnfenced := (atFence_append_of_atLineEnd
        (atLineEnd_singleton newline) (first :: tokens)).trans unfenced
      rw [List.append_assoc]
      by_cases last : middle = []
      · subst last
        subst nothing
        obtain ⟨rfl, _⟩ := lines.eq_nil
        have whole := CodeLines.line stillUnfenced
          (takeLine_ended newline taken leftOpen) .missing
        rwa [List.map_append, List.append_nil] at whole
      · exact .line stillUnfenced (takeLine_append_of_ne_nil taken last _)
          (inductionHypothesis nothing last
            (leftOpen.of_suffix (suffix_of_takeLine taken)))

/-! ### All lines -/

/-- The lines that belong together keep their endings when something is after them. -/
theorem Block.append
    (block : Block tokens elements rest)
    (goesOn : rest ≠ []) :
    Block (tokens ++ [ending]) elements (rest ++ [ending]) := by
  have ended := atLineEnd_singleton newline
  cases block with
  | marked marker isBlank inside taken =>
      exact .marked (marker.append _) isBlank (inside.append ended)
        (taken.append_of_ne_nil _ goesOn)
  | @table _ _ middle _ _ row rows =>
      have later : middle ≠ [] := by
        rintro rfl
        exact goesOn rows.eq_nil.2
      exact .table (row.append newline later) (rows.append newline goesOn)
  | @codeBlock _ _ _ middle _ _ isFence named lines =>
      have later : middle ≠ [] := by
        rintro rfl
        exact goesOn lines.eq_nil.2
      rw [List.append_assoc]
      exact .codeBlock isFence (takeLine_append_of_ne_nil named later _)
        (lines.append newline goesOn)
  | text starts inside taken =>
      exact .text (startsText_append_of_atLineEnd ended starts)
        (inside.append ended) (taken.append_of_ne_nil _ goesOn)

omit newline in
/-- What has a marker takes line endings, and its marker does not. -/
theorem Marker.takesEnding (marker : Marker tokens kind element rest) :
    kind.takesEnding = true ∧ element.endsBefore = true := by
  cases marker with
  | heading | unorderedItem | orderedItem => exact ⟨rfl, rfl⟩

/-- The last line gets the ending. -/
theorem Block.ended
    (block : Block tokens elements [])
    (leftOpen : LeftOpen tokens) :
    Block (tokens ++ [ending]) (Element.endLines ending elements) [] := by
  have ended := atLineEnd_singleton newline
  cases block with
  | @marked _ kind leaf blank middle content _ _ _ _ marker isBlank inside
      taken =>
      have openMiddle := (leftOpen.of_suffix marker.suffix).of_cons
      obtain ⟨rfl, rfl⟩ := taken.eq_nil
        (openMiddle.of_suffix inside.reads.suffix)
      obtain ⟨takes, isLeaf⟩ := marker.takesEnding
      have ends : ∀ part ∈ leaf :: .ofToken blank :: content,
          part.endsBefore = true := by
        rw [List.forall_mem_cons, List.forall_mem_cons]
        exact ⟨isLeaf, rfl, endsBefore_of_inline inside openMiddle.lexed⟩
      rw [Element.endLines_node takes, List.append_nil,
        Element.endLines_of_endsBefore ends]
      exact .marked (marker.append _) isBlank (inside.append ended)
        (ending_singleton newline)
  | table row rows =>
      obtain ⟨first, later, between, same, isRow, areRows⟩ :=
        Rows.ended newline row rows rfl leftOpen
      rw [Element.endLines_node rfl, same]
      exact .table isRow areRows
  | @codeBlock ticks tokens command middle others _ isFence named lines =>
      have leaves : ∀ part ∈
          glued .delimiter ticks :: command.map .ofToken ++ others,
          part.endsBefore = true := by
        intro part member
        rw [List.cons_append, List.mem_cons, List.mem_append] at member
        rcases member with rfl | inCommand | inLines
        · rfl
        · obtain ⟨token, _, rfl⟩ := List.mem_map.mp inCommand
          rfl
        · obtain ⟨kind, text, rfl⟩ := lines.isLeaf part inLines
          rfl
      rw [Element.endLines_node rfl, Element.endLines_of_endsBefore leaves,
        List.append_assoc]
      -- The ending goes to the line of the opening fence when there is no other line.
      by_cases last : middle = []
      · subst last
        obtain ⟨rfl, _⟩ := lines.eq_nil
        have whole := Block.codeBlock isFence
          (takeLine_ended newline named leftOpen.of_append) .missing
        rw [List.map_append, List.append_nil, ← List.cons_append] at whole
        rwa [List.append_nil]
      · rw [List.append_assoc]
        exact .codeBlock isFence (takeLine_append_of_ne_nil named last _)
          (lines.ended newline rfl last
            (leftOpen.of_append.of_suffix (suffix_of_takeLine named)))
  | @text _ content _ _ _ _ starts inside taken =>
      obtain ⟨rfl, rfl⟩ := taken.eq_nil
        (leftOpen.of_suffix inside.reads.suffix)
      rw [List.append_nil, Element.endLines_of_endsBefore
        (endsBefore_of_inline inside leftOpen.lexed)]
      exact .text (startsText_append_of_atLineEnd ended starts)
        (inside.append ended) (ending_singleton newline)

omit newline in
/-- A line is made of something. -/
theorem Block.ne_nil (block : Block tokens elements rest) : elements ≠ [] := by
  cases block with
  | marked | table | codeBlock => exact List.cons_ne_nil _ _
  | text starts inside =>
      cases inside with
      | done stopped =>
          cases tokens with
          | nil => cases starts
          | cons token others =>
              have newline : token.kind = .newline := by
                simpa [Inline.stopsAt] using stopped
              simp [startsText, newline] at starts
      | _ => simp

end Line

/-! ## Sources -/

namespace Parse

omit newline in
theorem Lines.ne_nil (lines : Lines tokens elements rest) : elements ≠ [] := by
  cases lines with
  | last block => exact block.ne_nil
  | next block => simp [block.ne_nil]

/-- The lines of a paragraph keep their endings when something is after them. -/
theorem Lines.append
    (lines : Lines tokens elements rest)
    (goesOn : rest ≠ []) :
    Lines (tokens ++ [ending]) elements (rest ++ [ending]) := by
  have ended := atLineEnd_singleton newline
  induction lines with
  | last block stops =>
      exact .last (block.append newline goesOn)
        ((Line.atVisible_append_of_atLineEnd ended goesOn).trans stops)
  | next block visible _ inductionHypothesis =>
      have later := Line.ne_nil_of_atVisible visible
      exact .next (block.append newline later)
        ((Line.atVisible_append_of_atLineEnd ended later).trans visible)
        (inductionHypothesis goesOn)

/-- The last line of a paragraph gets the ending. -/
theorem Lines.ended
    (lines : Lines tokens elements rest)
    (nothing : rest = [])
    (leftOpen : LeftOpen tokens) :
    Lines (tokens ++ [ending]) (Element.endLines ending elements) [] := by
  induction lines with
  | last block stops =>
      subst nothing
      exact .last (block.ended newline leftOpen) stops
  | next block visible lines inductionHypothesis =>
      have later := Line.ne_nil_of_atVisible visible
      rw [Element.endLines_append _ lines.ne_nil]
      exact .next (block.append newline later)
        ((Line.atVisible_append_of_atLineEnd (atLineEnd_singleton newline)
          later).trans visible)
        (inductionHypothesis nothing (leftOpen.of_suffix block.suffix))

omit newline in
theorem Layout.ne_nil
    (layout : Layout tokens elements)
    (nonempty : tokens ≠ []) :
    elements ≠ [] := by
  cases layout with
  | nil => exact absurd rfl nonempty
  | blank | paragraph => exact List.cons_ne_nil _ _

theorem layout_singleton : Layout [ending] [.ofToken ending] :=
  .blank (by simp [atBlankLine, newline]) .nil

/-- The last line of a layout gets the ending. -/
theorem Layout.ended
    (layout : Layout tokens elements)
    (leftOpen : LeftOpen tokens) :
    Layout (tokens ++ [ending]) (Element.endLines ending elements) := by
  have ended := atLineEnd_singleton newline
  induction layout with
  | nil => exact layout_singleton newline
  | @blank token rest others blank layout inductionHypothesis =>
      have stillBlank := (Line.atBlankLine_append_of_atLineEnd ended
        (List.cons_ne_nil token rest)).trans blank
      by_cases last : rest = []
      · subst last
        rw [layout.eq_nil]
        exact .blank stillBlank (layout_singleton newline)
      · rw [Element.endLines_cons _ (layout.ne_nil last)]
        exact .blank stillBlank (inductionHypothesis leftOpen.of_cons)
  | @paragraph tokens children rest others visible lines layout
      inductionHypothesis =>
      have stillVisible := (Line.atVisible_append_of_atLineEnd ended
        (Line.ne_nil_of_atVisible visible)).trans visible
      by_cases last : rest = []
      · subst last
        rw [layout.eq_nil, Element.endLines_node rfl]
        exact .paragraph stillVisible (lines.ended newline rfl leftOpen) .nil
      · rw [Element.endLines_cons _ (layout.ne_nil last)]
        exact .paragraph stillVisible (lines.append newline last)
          (inductionHypothesis (leftOpen.of_suffix lines.suffix))

end Parse

end

/-! ## Tokens of a source with a final line feed -/

namespace Lexer

/-- A run of characters ends before a line feed. -/
theorem takeRun_append_lineFeed
    (test : Char → Bool)
    (noFeed : test '\n' = false)
    (kind : Kind)
    (first : Char)
    (rest : List Char) :
    takeRun kind test first (rest ++ ['\n']) =
      ((takeRun kind test first rest).1,
        (takeRun kind test first rest).2 ++ ['\n']) :=
  takeRun_append_of_not noFeed kind first rest []

/-- A line feed goes on no token but a carriage return. -/
theorem nextToken_append_lineFeed
    {rest : List Char}
    (ends : EndsIn (· ≠ '\r') (first :: rest)) :
    nextToken first (rest ++ ['\n']) =
      ((nextToken first rest).1, (nextToken first rest).2 ++ ['\n']) := by
  have letters := takeWhile_append_of_eq_nil rest
    (show ['\n'].takeWhile isTagLetter = [] by decide)
  have names := takeWhile_append_of_eq_nil rest
    (show ['\n'].takeWhile isNameCharacter = [] by decide)
  unfold nextToken
  simp only [letters, names,
    takeRun_append_lineFeed Text.isSpacing (by decide),
    takeRun_append_lineFeed isTagLetter (by decide),
    takeRun_append_lineFeed isNameCharacter (by decide),
    takeRun_append_lineFeed isPlain (by decide)]
  split_ifs
  · rfl
  · rfl
  · rename_i isReturn
    have goesOn : rest ≠ [] := ends.ne_nil (not_not.mpr isReturn)
    obtain ⟨second, others, rfl⟩ := List.exists_cons_of_ne_nil goesOn
    by_cases feed : second = '\n'
    · subst feed
      rfl
    · simp [feed]
  · cases rest.takeWhile isTagLetter <;> rfl
  · cases rest.takeWhile isNameCharacter <;> rfl
  · cases punctuation? first with
    | some kind => rfl
    | none => rfl
  · cases punctuation? first with
    | some kind => rfl
    | none => rfl

/-- A line feed at the end of a source is one more token, unless it completes a carriage
return. -/
theorem tokens_append_lineFeed
    (characters : List Char)
    (ends : EndsIn (· ≠ '\r') characters) :
    tokens (characters ++ ['\n']) =
      tokens characters ++ [⟨.newline, "\n"⟩] := by
  induction characters using tokens.induct with
  | case1 => decide +kernel
  | case2 first rest inductionHypothesis =>
      rw [List.cons_append, tokens, nextToken_append_lineFeed ends,
        inductionHypothesis (ends.of_suffix (suffix_nextToken first rest)),
        tokens, List.cons_append]

end Lexer

/-- A source that ends with neither a line feed nor a carriage return. -/
def EndsOpen (characters : List Char) : Prop :=
  EndsIn (fun last => last ≠ '\n' ∧ last ≠ '\r') characters

/-- The tokens of a source without a final line ending have none. -/
theorem leftOpen_lex
    (endsOpen : EndsOpen source.toList) :
    LeftOpen (lex source) := by
  refine ⟨allLexed_lex source, ?_⟩
  intro token isLast newline
  have spelled := Lexer.flatMap_text_tokens source.toList
  have lexed := allLexed_lex source token (List.mem_of_getLast? isLast)
  obtain ⟨front, whole⟩ := List.getLast?_eq_some_iff.mp isLast
  rw [lex] at whole
  rw [whole, List.flatMap_append, List.flatMap_singleton] at spelled
  have last : source.toList.getLast? = some '\n' := by
    rw [← spelled]
    cases lexed.spelling with
    | newline feed => rcases feed with rfl | rfl <;> simp
    | punctuation found =>
        obtain rfl := newline
        cases Lexer.punctuation_sign found
    | _ => cases newline
  exact (endsOpen '\n' last).1 rfl

/-- A source whose last line has no ending keeps its tree when it gets one, but
for the ending of the last line in it. -/
theorem parse_lineFeed
    (source : String)
    (endsOpen : EndsOpen source.toList) :
    (parse (source ++ "\n")).children =
      Element.endLines ⟨.newline, "\n"⟩ (parse source).children := by
  have noReturn : EndsIn (· ≠ '\r') source.toList :=
    fun last isLast => (endsOpen last isLast).2
  have newline : (⟨.newline, "\n"⟩ : Token).kind = .newline := rfl
  have ended := (Parse.layout_sections (lex source)).ended newline
    (leftOpen_lex endsOpen)
  rw [parse, lex, String.toList_append]
  rw [show "\n".toList = ['\n'] from rfl,
    Lexer.tokens_append_lineFeed _ noReturn]
  exact ended.eq_sections

end Markup
end NotePress
