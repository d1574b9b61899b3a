import NotePress.Markup.Parse
import NotePress.Proofs.Markup.Locality
import NotePress.Proofs.Markup.Subtrees

/-!
# Whole lines are read apart from what follows a blank line

Items, headings, tables, code blocks and paragraphs look at the lines after them
to see whether they go on. A line ending that stands alone stops all of them, but
for a code block without a closing fence. So lines with their endings, all code
blocks in them closed, give the same sections whatever comes after a blank line.
-/

namespace NotePress
namespace Markup

open Parsed (Extended)

/-! ## Closed code blocks -/

namespace Element

/-- Whether an element is the fence of a code block. -/
def isFence : Element → Bool
  | leaf kind text => kind == .delimiter && text == "```"
  | node _ _ => false

/-- Whether an element is a code block without a closing fence after its opening
one. -/
def isOpenCodeBlock : Element → Bool
  | leaf _ _ => false
  | node kind children => kind == .codeBlock && !children.tail.any isFence

end Element

/-- Elements in which every code block has its closing fence. -/
def Fenced (elements : List Element) : Prop :=
  ∀ element ∈ Element.subtreesOf elements, element.isOpenCodeBlock = false

namespace Fenced

/-- Where code blocks are closed among elements, they are closed among the first of
them. -/
theorem of_append_left
    (fenced : Fenced (first ++ second)) :
    Fenced first := by
  intro element member
  apply fenced element
  rw [Element.subtreesOf_append]
  exact List.mem_append_left _ member

theorem of_append_right
    (fenced : Fenced (first ++ second)) :
    Fenced second := by
  intro element member
  apply fenced element
  rw [Element.subtreesOf_append]
  exact List.mem_append_right _ member

theorem head
    (fenced : Fenced (first :: others)) :
    Fenced [first] :=
  of_append_left (show Fenced ([first] ++ others) from fenced)

theorem of_cons
    (fenced : Fenced (first :: others)) :
    Fenced others :=
  of_append_right (show Fenced ([first] ++ others) from fenced)

/-- Code blocks closed in a node are closed among its children. -/
theorem of_node
    (fenced : Fenced [.node kind children]) :
    Fenced children := by
  intro element member
  apply fenced element
  rw [Element.subtreesOf]
  exact List.mem_append_left _
    (Element.subtreesOf_subset_subtrees_node kind children member)

end Fenced

/-! ## Lines with their endings -/

/-- Tokens as the lexer makes them of lines that all have their ending. -/
structure SourceLines (tokens : List Token) : Prop where
  ends : EndsIn (·.kind = .newline) tokens
  lexed : AllLexed tokens

namespace SourceLines

theorem of_suffix
    (lines : SourceLines tokens)
    (isSuffix : rest <:+ tokens) :
    SourceLines rest :=
  ⟨lines.ends.of_suffix isSuffix, lines.lexed.of_suffix isSuffix⟩

theorem of_cons
    (lines : SourceLines (first :: others)) :
    SourceLines others :=
  lines.of_suffix (List.suffix_cons first others)

/-- Lines with their endings have an ending among their tokens. -/
theorem hasLineEnd
    (lines : SourceLines tokens)
    (nonempty : tokens ≠ []) :
    HasLineEnd tokens :=
  lines.ends.exists_mem nonempty

/-- A token that is no line ending has one after it. -/
theorem hasLineEnd_of_cons
    (lines : SourceLines (first :: others))
    (visible : first.kind ≠ .newline) :
    HasLineEnd others :=
  lines.of_cons.hasLineEnd (lines.ends.ne_nil visible)

end SourceLines

/-- The tokens of a source that ends with a line feed are lines with their endings. -/
theorem sourceLines_lex
    {source : String}
    (ends : EndsIn (· = '\n') source.toList) :
    SourceLines (lex source) :=
  ⟨endsIn_lex ends, allLexed_lex source⟩

theorem HasLineEnd.of_cons
    (hasEnd : HasLineEnd (first :: others))
    (visible : first.kind ≠ .newline) :
    HasLineEnd others := by
  obtain ⟨ending, member, newline⟩ := hasEnd
  rcases List.mem_cons.mp member with rfl | later
  · exact absurd newline visible
  · exact ⟨ending, later, newline⟩

/-! ## Lines of inline elements -/

namespace Line

variable {tokens rest more : List Token}

/-- Whether a line ends is seen from its first token. -/
theorem atLineEnd_append
    (nonempty : tokens ≠ []) :
    atLineEnd (tokens ++ more) = atLineEnd tokens := by
  cases tokens with
  | nil => exact absurd rfl nonempty
  | cons first others => rfl

/-- What tokens start with is seen from the first of them. -/
theorem startsWith_append
    (kind : Kind)
    (nonempty : tokens ≠ []) :
    startsWith kind (tokens ++ more) = startsWith kind tokens := by
  cases tokens with
  | nil => exact absurd rfl nonempty
  | cons first others => rfl

/-- A line that has its ending is taken the same in front of more tokens. -/
theorem takeLine_append_of_hasLineEnd
    (more : List Token)
    (hasEnd : HasLineEnd tokens) :
    takeLine (tokens ++ more) =
      ((takeLine tokens).1, (takeLine tokens).2 ++ more) := by
  induction tokens with
  | nil => exact absurd rfl hasEnd.ne_nil
  | cons first others inductionHypothesis =>
      rw [List.cons_append, takeLine, takeLine]
      split
      · rfl
      · rename_i visible
        rw [inductionHypothesis (hasEnd.of_cons visible)]

/-- A line that has its ending starts with a fence or not whatever comes after it. -/
theorem atFence_append
    (more : List Token)
    (hasEnd : HasLineEnd tokens) :
    atFence (tokens ++ more) = atFence tokens := by
  match tokens with
  | [] => exact absurd rfl hasEnd.ne_nil
  | [ending] =>
      obtain ⟨_, member, newline⟩ := hasEnd
      rw [List.mem_singleton.mp member] at newline
      rcases more with _ | ⟨second, _ | ⟨third, others⟩⟩ <;>
        simp [atFence, newline]
  | [first, second] =>
      by_cases newline : first.kind = .newline
      · cases more <;> simp [atFence, newline]
      · have secondEnds := hasEnd.of_cons newline
        obtain ⟨_, member, newline⟩ := secondEnds
        rw [List.mem_singleton.mp member] at newline
        cases more <;> simp [atFence, newline]
  | first :: second :: third :: others => rfl

/-- A rule with the line ending after it leaves more, when it was not at the end of the
tokens. -/
theorem withEnding_extended
    {shorter : Parsed (List Element) bound}
    {longer : Parsed (List Element) larger}
    (extended : Extended more shorter longer)
    (left : shorter.rest ≠ []) :
    Extended more (withEnding shorter) (withEnding longer) := by
  obtain ⟨elements, last, rest, bounded⟩ := shorter
  obtain ⟨longerElements, longerLast, longerRest, longerBounded⟩ := longer
  obtain ⟨sameValue, sameLast, sameRest⟩ := extended
  simp only at sameValue sameLast sameRest
  subst sameValue sameLast sameRest
  cases rest with
  | nil => exact absurd rfl left
  | cons first others =>
      simp only [List.cons_append, withEnding]
      split
      · exact ⟨rfl, rfl, rfl⟩
      · exact ⟨rfl, rfl, rfl⟩

/-- The elements of a line that has its ending are the same in front of more tokens. -/
theorem inlineRest_append
    (hasEnd : HasLineEnd tokens)
    (previous : Kind) :
    Extended more (inlineRest previous tokens)
      (inlineRest previous (tokens ++ more)) :=
  withEnding_extended (Inline.elements_append hasEnd _ previous more)
    (Inline.hasLineEnd_rest_elements hasEnd _ previous).ne_nil

/-- A line with a marker is the same in front of more tokens. -/
theorem marked_append
    (more : List Token)
    (kind : Kind)
    (marker : Element)
    (lines : SourceLines tokens)
    (spaced : startsWith .whitespace tokens = true) :
    Extended more (marked kind marker tokens)
      (marked kind marker (tokens ++ more)) := by
  cases tokens with
  | nil => cases spaced
  | cons blank rest =>
      have space : blank.kind = .whitespace := eq_of_beq spaced
      have hasEnd := lines.hasLineEnd_of_cons (by rw [space]; decide)
      exact ((inlineRest_append hasEnd blank.kind).map _).weaken
        (Nat.le_succ _) (Nat.le_succ _)

/-- The level of a heading is seen on its line. -/
theorem headingLevel_append
    (more : List Token)
    (hasEnd : HasLineEnd tokens) :
    headingLevel? (tokens ++ more) = headingLevel? tokens := by
  have stopped := hasEnd.exists_not (·.kind == .hash)
    (by intro token newline; rw [newline]; rfl)
  have goesOn : tokens.dropWhile (·.kind == .hash) ≠ [] := by
    intro nothing
    obtain ⟨token, member, fails⟩ := stopped
    exact fails (List.dropWhile_eq_nil_iff.mp nothing token member)
  unfold headingLevel?
  rw [takeWhile_append_of_mem stopped, dropWhile_append_of_mem stopped,
    startsWith_append _ goesOn]

/-- The hashes of a heading are there, and a blank follows them. -/
theorem startsWith_of_headingLevel
    {level : Nat}
    {token : Token}
    (found : headingLevel? (token :: rest) = some level) :
    level - 1 ≤ rest.length ∧
      startsWith .whitespace (rest.drop (level - 1)) = true := by
  unfold headingLevel? at found
  simp only [Option.ite_none_right_eq_some, Bool.and_eq_true, decide_eq_true_eq,
    Option.some.injEq] at found
  obtain ⟨⟨⟨positive, _⟩, spaced⟩, equal⟩ := found
  rw [equal] at positive
  obtain ⟨fewer, rfl⟩ := Nat.exists_eq_succ_of_ne_zero
    (Nat.ne_of_gt positive)
  have fits := (List.takeWhile_prefix (l := token :: rest)
    (·.kind == .hash)).length_le
  have remains : ((token :: rest).takeWhile (·.kind == .hash) ++
      (token :: rest).dropWhile (·.kind == .hash)).drop
        ((token :: rest).takeWhile (·.kind == .hash)).length =
      (token :: rest).dropWhile (·.kind == .hash) := List.drop_left
  rw [List.takeWhile_append_dropWhile, equal, List.drop_succ_cons] at remains
  rw [equal, List.length_cons] at fits
  rw [← remains] at spaced
  exact ⟨Nat.le_of_succ_le_succ fits, spaced⟩

/-- A heading is the same in front of more tokens. -/
theorem heading_append
    {level : Nat}
    {token : Token}
    (lines : SourceLines (token :: rest))
    (found : headingLevel? (token :: rest) = some level) :
    Extended more (heading level token rest)
      (heading level token (rest ++ more)) := by
  obtain ⟨fits, spaced⟩ := startsWith_of_headingLevel found
  have enough : level ≤ (token :: rest).length := by
    rw [List.length_cons]
    omega
  have content := marked_append more .heading
    (.leaf .headingMarker
      (String.join (((token :: rest).take level).map Token.text)))
    (lines.of_cons.of_suffix (List.drop_suffix (level - 1) rest)) spaced
  rw [← List.drop_append_of_le_length fits] at content
  unfold heading
  rw [← List.cons_append, List.take_append_of_le_length enough]
  exact content.weaken _ _

/-! ## Tables -/

/-- The cells of a row leave its line ending. -/
theorem hasLineEnd_rest_cells
    (tokens : List Token)
    (hasEnd : HasLineEnd tokens) :
    HasLineEnd (cells tokens).rest := by
  unfold cells
  split
  · exact hasEnd
  · rename_i first rest
    split
    · exact hasEnd
    · rename_i visible
      split
      · exact hasEnd.of_cons visible
      · have left := Inline.hasLineEnd_rest_elements hasEnd
          (fun kind => kind == .pipe) .pipe
        split
        · rename_i content last bar after bounded inside
          rw [inside] at left
          split
          · rename_i isPipe
            exact hasLineEnd_rest_cells after
              (left.of_cons (by rw [isPipe]; decide))
          · exact left
        · rename_i inside
          rw [inside] at left
          exact absurd rfl left.ne_nil
termination_by tokens.length

/-- The cells of a row are the same in front of more tokens. -/
theorem cells_append
    (tokens : List Token)
    (hasEnd : HasLineEnd tokens) :
    Extended more (cells tokens) (cells (tokens ++ more)) := by
  match tokens with
  | [] => exact absurd rfl hasEnd.ne_nil
  | first :: rest =>
      by_cases newline : first.kind = .newline
      · rw [List.cons_append, cells, cells, if_pos newline, if_pos newline]
        exact ⟨rfl, rfl, rfl⟩
      · have content := Inline.elements_append hasEnd
          (fun kind => kind == .pipe) .pipe more
        have left := Inline.hasLineEnd_rest_elements hasEnd
          (fun kind => kind == .pipe) .pipe
        rw [List.cons_append] at content ⊢
        rw [cells, cells, if_neg newline, if_neg newline,
          atLineEnd_append (hasEnd.of_cons newline).ne_nil]
        split
        · exact ⟨rfl, rfl, rfl⟩
        · generalize Inline.elements (fun kind => kind == .pipe) .pipe
            (first :: rest) = shorter at content left ⊢
          generalize Inline.elements (fun kind => kind == .pipe) .pipe
            (first :: (rest ++ more)) = longer at content ⊢
          obtain ⟨elements, last, remaining, bounded⟩ := shorter
          obtain ⟨longerElements, longerLast, longerRemaining, longerBounded⟩ :=
            longer
          obtain ⟨sameValue, sameLast, sameRest⟩ := content
          simp only at sameValue sameLast sameRest
          subst sameValue sameLast sameRest
          cases remaining with
          | nil => exact absurd rfl left.ne_nil
          | cons bar after =>
              simp only [List.cons_append]
              split
              · rename_i isPipe
                have shorter : after.length ≤ rest.length :=
                  Nat.le_of_succ_le_succ bounded
                have others := cells_append after
                  (left.of_cons (by rw [isPipe]; decide))
                exact (others.map _).weaken _ _
              · exact ⟨rfl, rfl, rfl⟩
termination_by tokens.length

/-- A row of a table is the same in front of more tokens. -/
theorem tableRow_append
    (more : List Token)
    (bar : Token)
    (hasEnd : HasLineEnd rest) :
    Extended more (tableRow bar rest) (tableRow bar (rest ++ more)) :=
  (withEnding_extended (cells_append rest hasEnd)
    (hasLineEnd_rest_cells rest hasEnd).ne_nil).map _

/-- What a rule leaves of lines with their endings are such lines. -/
theorem sourceLines_rest
    (lines : SourceLines (first :: others))
    (read : Reads (first :: others) elements rest)
    (shorter : rest.length ≤ others.length) :
    SourceLines rest :=
  lines.of_cons.of_suffix (read.suffix_of_length_le shorter)

/-- A table ends in front of a line that starts without a bar. -/
theorem tableRows_append
    (tokens : List Token)
    (lines : SourceLines tokens)
    (noBar : startsWith .pipe more = false) :
    Extended more (tableRows tokens) (tableRows (tokens ++ more)) := by
  induction tokens using tableRows.induct with
  | case1 =>
      cases more with
      | nil => exact ⟨rfl, rfl, by rw [List.append_nil, List.append_nil]⟩
      | cons next others =>
          rw [List.nil_append, tableRows, tableRows,
            if_neg (by simpa [startsWith] using noBar)]
          exact ⟨rfl, rfl, rfl⟩
  | case2 bar rest isPipe row _ inductionHypothesis =>
      have rowExtended := tableRow_append more bar
        (lines.hasLineEnd_of_cons (by rw [isPipe]; decide))
      have rowsExtended :
          Extended more (tableRows row.rest)
            (tableRows (tableRow bar (rest ++ more)).rest) := by
        rw [rowExtended.rest]
        exact inductionHypothesis
          (sourceLines_rest lines (reads_tableRow bar rest) row.bounded)
      rw [List.cons_append, tableRows, tableRows, if_pos isPipe, if_pos isPipe]
      exact ⟨congrArg₂ List.cons rowExtended.value rowsExtended.value,
        rowsExtended.last, rowsExtended.rest⟩
  | case3 bar rest notPipe =>
      rw [List.cons_append, tableRows, tableRows, if_neg notPipe,
        if_neg notPipe]
      exact ⟨rfl, rfl, rfl⟩

/-- A table is the same in front of a line that starts without a bar. -/
theorem table_append
    {token : Token}
    (lines : SourceLines (token :: rest))
    (isPipe : token.kind = .pipe)
    (noBar : startsWith .pipe more = false) :
    Extended more (table token rest) (table token (rest ++ more)) := by
  have row := tableRow_append more token
    (lines.hasLineEnd_of_cons (by rw [isPipe]; decide))
  have rows :
      Extended more (tableRows (tableRow token rest).rest)
        (tableRows (tableRow token (rest ++ more)).rest) := by
    rw [row.rest]
    exact tableRows_append _
      (sourceLines_rest lines (reads_tableRow token rest)
        (Parsed.bounded _)) noBar
  refine ⟨?_, rows.last, rows.rest⟩
  simp only [table, Parsed.value_weaken, Parsed.value_map, row.value,
    rows.value]

/-! ## Code blocks -/

/-- A token of the lexer is no fence. -/
theorem isFence_ofToken
    {token : Token}
    (lexed : token.IsLexed) :
    (Element.ofToken token).isFence = false := by
  simp [Element.ofToken, Element.isFence, lexed.ne_delimiter]

/-- There is no fence among tokens of the lexer. -/
theorem any_isFence_ofTokens
    (lexed : AllLexed tokens) :
    (tokens.map Element.ofToken).any Element.isFence = false := by
  rw [List.any_eq_false]
  intro element member
  obtain ⟨token, tokenMember, rfl⟩ := List.mem_map.mp member
  rw [isFence_ofToken (lexed token tokenMember)]
  decide

theorem allLexed_takeLine
    (lexed : AllLexed tokens) :
    AllLexed (takeLine tokens).1 := by
  intro token member
  apply lexed
  rw [← takeLine_append tokens]
  exact List.mem_append_left _ member

theorem suffix_takeLine (tokens : List Token) : (takeLine tokens).2 <:+ tokens :=
  ⟨_, takeLine_append tokens⟩

/-- A fence is not the end of its line. -/
theorem hasLineEnd_drop_of_atFence
    (hasEnd : HasLineEnd tokens)
    (fenced : atFence tokens = true) :
    HasLineEnd (tokens.drop 3) := by
  match tokens with
  | first :: second :: third :: others =>
      simp only [atFence, Bool.and_eq_true, beq_iff_eq] at fenced
      obtain ⟨⟨isFirst, isSecond⟩, isThird⟩ := fenced
      exact ((hasEnd.of_cons (by rw [isFirst]; decide)).of_cons
        (by rw [isSecond]; decide)).of_cons (by rw [isThird]; decide)

theorem fence_append
    (more : List Token)
    (fenced : atFence tokens = true) :
    fence (tokens ++ more) = fence tokens := by
  rw [fence, fence, List.take_append_of_le_length (length_of_atFence fenced)]

/-- The line of a fence ends where it did in front of more tokens. -/
theorem takeLine_drop_append
    (more : List Token)
    (hasEnd : HasLineEnd tokens)
    (fenced : atFence tokens = true) :
    takeLine ((tokens ++ more).drop 3) =
      ((takeLine (tokens.drop 3)).1, (takeLine (tokens.drop 3)).2 ++ more) := by
  rw [List.drop_append_of_le_length (length_of_atFence fenced)]
  exact takeLine_append_of_hasLineEnd more
    (hasLineEnd_drop_of_atFence hasEnd fenced)

/-- The lines of a code block with a closing fence end with that fence. -/
theorem codeLines_append
    (tokens : List Token)
    (lines : SourceLines tokens)
    (closed : (codeLines tokens).value.any Element.isFence = true) :
    Extended more (codeLines tokens) (codeLines (tokens ++ more)) := by
  induction tokens using codeLines.induct with
  | case1 =>
      rw [codeLines] at closed
      cases closed
  | case2 first rest fenced =>
      have hasEnd := lines.hasLineEnd (List.cons_ne_nil first rest)
      have sameFence := atFence_append more hasEnd
      have sameOpening := fence_append more fenced
      have sameLine := takeLine_drop_append more hasEnd fenced
      rw [fenced] at sameFence
      rw [List.cons_append] at sameFence sameOpening sameLine ⊢
      rw [codeLines, codeLines, if_pos fenced, if_pos sameFence]
      refine ⟨?_, rfl, ?_⟩
      · simp only [sameOpening, sameLine]
      · simp only [sameLine]
  | case3 first rest unfenced _ inductionHypothesis =>
      have hasEnd := lines.hasLineEnd (List.cons_ne_nil first rest)
      have sameFence := atFence_append more hasEnd
      have sameLine := takeLine_append_of_hasLineEnd more hasEnd
      have closedLater :
          (codeLines (takeLine (first :: rest)).2).value.any
            Element.isFence = true := by
        rw [codeLines, if_neg unfenced] at closed
        simpa [any_isFence_ofTokens (allLexed_takeLine lines.lexed)] using closed
      have others := inductionHypothesis
        (lines.of_suffix (suffix_takeLine _)) closedLater
      have longerOthers :
          Extended more (codeLines (takeLine (first :: rest)).2)
            (codeLines (takeLine (first :: rest ++ more)).2) := by
        rw [sameLine]
        exact others
      rw [List.cons_append] at sameFence sameLine longerOthers ⊢
      rw [codeLines, codeLines, sameFence, if_neg unfenced, if_neg unfenced]
      refine ⟨?_, longerOthers.last, longerOthers.rest⟩
      simp only [Parsed.value_weaken, Parsed.value_map, sameLine,
        longerOthers.value]

/-- A code block that has its closing fence is the same in front of more tokens. -/
theorem codeBlock_append
    {token : Token}
    (lines : SourceLines (token :: rest))
    (opened : atFence (token :: rest) = true)
    (closed : Fenced (codeBlock token rest).value) :
    Extended more (codeBlock token rest) (codeBlock token (rest ++ more)) := by
  have hasEnd := lines.hasLineEnd (List.cons_ne_nil token rest)
  have firstLines : SourceLines (rest.drop 2) :=
    lines.of_cons.of_suffix (List.drop_suffix 2 rest)
  have sameFence := fence_append more opened
  have sameLine : takeLine ((rest ++ more).drop 2) =
      ((takeLine (rest.drop 2)).1, (takeLine (rest.drop 2)).2 ++ more) :=
    takeLine_drop_append more hasEnd opened
  have closing :
      (codeLines (takeLine (rest.drop 2)).2).value.any Element.isFence =
        true := by
    have closedHere := closed _
      (Element.mem_subtreesOf_of_mem List.mem_cons_self)
    simpa [Element.isOpenCodeBlock, any_isFence_ofTokens
      (allLexed_takeLine firstLines.lexed)] using closedHere
  have others :
      Extended more (codeLines (takeLine (rest.drop 2)).2)
        (codeLines (takeLine ((rest ++ more).drop 2)).2) := by
    rw [sameLine]
    exact codeLines_append _ (firstLines.of_suffix (suffix_takeLine _)) closing
  refine ⟨?_, others.last, others.rest⟩
  simp only [codeBlock, Parsed.value_weaken, Parsed.value_map, sameLine,
    others.value, ← List.cons_append, sameFence]

/-! ## Lines, paragraphs and sources -/

theorem noBar_of_atLineEnd
    (ended : atLineEnd more = true) :
    startsWith .pipe more = false := by
  rcases eq_nil_or_newline_of_atLineEnd ended with
    rfl | ⟨ending, others, rfl, newline⟩
  · rfl
  · simp [startsWith, newline]

/-- A fence starts a code block. -/
theorem line_of_atFence
    {token : Token}
    (isBacktick : token.kind = .backtick)
    (opened : atFence (token :: rest) = true) :
    line token rest = codeBlock token rest := by
  unfold line
  simp only [isBacktick, opened, if_true]

/-- Whatever a line is, it and the lines that belong to it are the same in front
of a line that goes on no table. -/
theorem line_append
    (token : Token)
    (lines : SourceLines (token :: rest))
    (closed : Fenced (line token rest).value)
    (noBar : startsWith .pipe more = false) :
    Extended more (line token rest) (line token (rest ++ more)) := by
  have hasEnd := lines.hasLineEnd (List.cons_ne_nil token rest)
  have closedBlock (isBacktick : token.kind = .backtick)
      (opened : atFence (token :: rest) = true) :
      Fenced (codeBlock token rest).value := by
    rwa [line_of_atFence isBacktick opened] at closed
  clear closed
  unfold line
  extract_lets first plainLine longerFirst longerPlainLine
  -- Every rule falls back to a line of text, so this case is settled first.
  have ordinary : Extended more plainLine longerPlainLine := by
    unfold plainLine longerPlainLine
    split
    · exact ⟨rfl, rfl, rfl⟩
    · rename_i visible
      have hasRestEnd := hasEnd.of_cons visible
      have firstExtended :=
        Inline.element_append hasRestEnd .newline token more
      have othersExtended :
          Extended more (inlineRest first.last first.rest)
            (inlineRest longerFirst.last longerFirst.rest) := by
        rw [firstExtended.last, firstExtended.rest]
        exact inlineRest_append
          (Inline.hasLineEnd_rest_element hasRestEnd .newline token) first.last
      exact ⟨congrArg₂ List.cons firstExtended.value othersExtended.value,
        othersExtended.last, othersExtended.rest⟩
  have sameStart (visible : token.kind ≠ .newline) :
      startsWith .whitespace (rest ++ more) = startsWith .whitespace rest :=
    startsWith_append _ (hasEnd.of_cons visible).ne_nil
  split
  · have sameLevel := headingLevel_append more hasEnd
    rw [List.cons_append] at sameLevel
    simp only [sameLevel]
    split
    · exact heading_append lines ‹_›
    · exact ordinary
  · rename_i isDash
    simp only [sameStart (by rw [isDash]; decide)]
    split
    · exact marked_append more _ _ lines.of_cons ‹_›
    · exact ordinary
  · rename_i isStar
    simp only [sameStart (by rw [isStar]; decide)]
    split
    · exact marked_append more _ _ lines.of_cons ‹_›
    · exact ordinary
  · rename_i isText
    simp only [sameStart (by rw [isText]; decide)]
    split
    · rename_i numbered
      rw [Bool.and_eq_true] at numbered
      exact marked_append more _ _ lines.of_cons numbered.2
    · exact ordinary
  · rename_i isPipe
    exact table_append lines isPipe noBar
  · rename_i isBacktick
    have sameFence := atFence_append more hasEnd
    rw [List.cons_append] at sameFence
    simp only [sameFence]
    split
    · exact codeBlock_append lines ‹_› (closedBlock isBacktick ‹_›)
    · exact ordinary
  · exact ordinary

end Line

namespace Parse

variable {rest more : List Token}

/-- A blank line is seen from its tokens alone. -/
theorem atBlankLine_append
    {first : Token}
    (more : List Token)
    (lines : SourceLines (first :: rest)) :
    atBlankLine (first :: rest ++ more) = atBlankLine (first :: rest) := by
  by_cases newline : first.kind = .newline
  · simp [atBlankLine, newline]
  · have nonempty := (lines.hasLineEnd_of_cons newline).ne_nil
    simp only [List.cons_append, atBlankLine]
    rw [Line.atLineEnd_append nonempty]

/-- Code blocks closed in a paragraph are closed on its first line. -/
theorem fenced_line_of_fenced
    {token : Token}
    (closed : Fenced (paragraphLines token rest).value) :
    Fenced (Line.line token rest).value := by
  unfold paragraphLines at closed
  simp only at closed
  split at closed
  · rename_i found
    rw [found]
    exact closed
  · rename_i found
    rw [found]
    split at closed
    · exact closed
    · exact closed.of_append_left

/-- A paragraph of whole lines ends in front of a line ending. -/
theorem paragraphLines_append
    (token : Token)
    (rest : List Token)
    (lines : SourceLines (token :: rest))
    (closed : Fenced (paragraphLines token rest).value)
    (ended : Line.atLineEnd more = true) :
    Extended more (paragraphLines token rest)
      (paragraphLines token (rest ++ more)) := by
  have lineExtended :=
    Line.line_append token lines (fenced_line_of_fenced closed)
      (Line.noBar_of_atLineEnd ended)
  have left := Line.sourceLines_rest lines (Line.reads_line token rest)
    (Parsed.bounded _)
  rw [paragraphLines] at closed ⊢
  rw [paragraphLines]
  generalize Line.line token rest = shorter at closed left lineExtended ⊢
  generalize Line.line token (rest ++ more) = longer at lineExtended ⊢
  obtain ⟨elements, last, remaining, bounded⟩ := shorter
  obtain ⟨longerElements, longerLast, longerRemaining, longerBounded⟩ := longer
  obtain ⟨sameValue, sameLast, sameRest⟩ := lineExtended
  simp only at sameValue sameLast sameRest
  subst sameValue sameLast sameRest
  cases remaining with
  | nil =>
      rcases Line.eq_nil_or_newline_of_atLineEnd ended with
        rfl | ⟨ending, others, rfl, newline⟩
      · exact ⟨rfl, rfl, rfl⟩
      · have blank : atBlankLine (ending :: others) = true := by
          simp [atBlankLine, newline]
        simp only [List.nil_append, blank, if_true]
        exact ⟨rfl, rfl, rfl⟩
  | cons next others =>
      have sameBlank := atBlankLine_append more left
      rw [List.cons_append] at sameBlank
      simp only [List.cons_append, sameBlank] at closed ⊢
      split at closed
      · rename_i blank
        simp only [blank, if_true]
        exact ⟨rfl, rfl, rfl⟩
      · rename_i visible
        have othersExtended := paragraphLines_append next others left
          closed.of_append_right ended
        simp only [visible]
        exact (othersExtended.map _).weaken (Nat.le_of_lt bounded)
          (Nat.le_of_lt longerBounded)
termination_by rest.length

/-- A paragraph of whole lines, its code blocks closed, is the same in front of the end
of a line. -/
theorem paragraph_append
    (token : Token)
    (lines : SourceLines (token :: rest))
    (closed : Fenced [(paragraph token rest).value])
    (ended : Line.atLineEnd more = true) :
    Extended more (paragraph token rest) (paragraph token (rest ++ more)) :=
  (paragraphLines_append token rest lines closed.of_node ended).map _

/-- The sections of whole lines do not depend on what follows a line ending after
them. -/
theorem sections_append
    (tokens : List Token)
    (lines : SourceLines tokens)
    (closed : Fenced (sections tokens))
    (ended : Line.atLineEnd more = true) :
    sections (tokens ++ more) = sections tokens ++ sections more := by
  induction tokens using sections.induct with
  | case1 => rw [sections, List.nil_append, List.nil_append]
  | case2 first rest blank inductionHypothesis =>
      have sameBlank := atBlankLine_append more lines
      rw [blank, List.cons_append] at sameBlank
      rw [sections, if_pos blank] at closed
      rw [List.cons_append, sections, if_pos sameBlank, sections, if_pos blank,
        inductionHypothesis lines.of_cons closed.of_cons, List.cons_append]
  | case3 first rest visible inductionHypothesis =>
      have sameBlank := atBlankLine_append more lines
      rw [List.cons_append] at sameBlank
      rw [sections, if_neg visible] at closed
      have here := paragraph_append first lines
        closed.head ended
      rw [List.cons_append, sections, sameBlank, if_neg visible, sections,
        if_neg visible, here.value, here.rest,
        inductionHypothesis
          (Line.sourceLines_rest lines (reads_paragraph first rest)
            (Parsed.bounded _))
          closed.of_cons,
        List.cons_append]

end Parse

end Markup
end NotePress
