import NotePress.Proofs.Markup.Lossless
import NotePress.Proofs.Markup.Members
import NotePress.Proofs.Markup.Tokens

/-!
# Other line endings

Line endings are tokens of their own, and the grammar asks for their kind only,
never for their text. So a source in which every line feed gets a carriage
return in front of it has the same tree, with the texts of its line endings
changed (`parse_withReturns`).
-/

namespace NotePress

namespace Text

/-- Characters with a carriage return in front of every line feed. -/
def returned (characters : List Char) : List Char :=
  characters.flatMap fun character =>
    if character = '\n' then ['\r', '\n'] else [character]

theorem returned_append (first second : List Char) :
    returned (first ++ second) = returned first ++ returned second :=
  List.flatMap_append

theorem returned_cons_of_ne
    (visible : first ≠ '\n')
    (others : List Char) :
    returned (first :: others) = first :: returned others := by
  simp [returned, visible]

theorem returned_lineFeed (others : List Char) :
    returned ('\n' :: others) = '\r' :: '\n' :: returned others :=
  rfl

/-- Characters without a line feed are left alone. -/
theorem returned_of_notMem
    (noFeed : '\n' ∉ characters) :
    returned characters = characters := by
  induction characters with
  | nil => rfl
  | cons first others inductionHypothesis =>
      have visible : first ≠ '\n' := by
        rintro rfl
        exact noFeed List.mem_cons_self
      rw [returned_cons_of_ne visible, inductionHypothesis fun later =>
        noFeed (List.mem_cons_of_mem first later)]

/-- A text with a carriage return in front of every line feed. -/
def withReturns (text : String) : String :=
  String.ofList (returned text.toList)

@[simp] theorem toList_withReturns (text : String) :
    (withReturns text).toList = returned text.toList :=
  String.toList_ofList

end Text

namespace Markup

/-- A token with another text if it is a line ending. -/
def Token.rebreak
    (ending : String)
    (token : Token) : Token :=
  if token.kind = .newline then ⟨.newline, ending⟩ else token

namespace Element

mutual

/-- An element with another text for its line endings. -/
def rebreak (ending : String) : Element → Element
  | leaf kind text =>
      if kind = .newline then leaf .newline ending else leaf kind text
  | node kind children => node kind (rebreakAll ending children)

/-- Elements with another text for their line endings. -/
def rebreakAll (ending : String) : List Element → List Element
  | [] => []
  | first :: others => rebreak ending first :: rebreakAll ending others

end

end Element

/-! ## Tokens -/

section

variable {ending : String}

@[simp] theorem Token.kind_rebreak (token : Token) :
    (token.rebreak ending).kind = token.kind := by
  unfold Token.rebreak
  split
  · rename_i newline
    exact newline.symm
  · rfl

/-- A token that is no line ending keeps its text. -/
theorem Token.rebreak_of_visible
    {token : Token}
    (visible : token.kind ≠ .newline) :
    token.rebreak ending = token :=
  if_neg visible

/-- The tokens of one line have no ending to change. -/
theorem map_rebreak_of_onLine (onLine : OnLine tokens) :
    tokens.map (Token.rebreak ending) = tokens := by
  have same : ∀ token ∈ tokens, token.rebreak ending = token :=
    fun token member => Token.rebreak_of_visible (onLine token member)
  rw [List.map_congr_left same, List.map_id']

theorem map_rebreak_of_kind
    {kind : Kind}
    {tokens : List Token}
    (visible : kind ≠ .newline)
    (same : ∀ token ∈ tokens, token.kind = kind) :
    tokens.map (Token.rebreak ending) = tokens :=
  map_rebreak_of_onLine fun token member => same token member ▸ visible

/-! ## Elements -/

namespace Element

theorem rebreakAll_append (first second : List Element) :
    rebreakAll ending (first ++ second) =
      rebreakAll ending first ++ rebreakAll ending second := by
  induction first with
  | nil => rfl
  | cons element others inductionHypothesis =>
      rw [List.cons_append, rebreakAll, inductionHypothesis, rebreakAll,
        List.cons_append]

@[simp] theorem rebreak_ofToken (token : Token) :
    rebreak ending (.ofToken token) = .ofToken (token.rebreak ending) := by
  unfold ofToken rebreak Token.rebreak
  split <;> rfl

theorem rebreak_leaf
    (kind : Kind)
    (text : String) :
    rebreak ending (leaf kind text) =
      leaf kind (Token.rebreak ending ⟨kind, text⟩).text := by
  unfold rebreak Token.rebreak
  split
  · rename_i newline
    rw [newline]
  · rfl

/-- Changing leaves made of tokens is changing the tokens. -/
theorem rebreakAll_ofTokens (tokens : List Token) :
    rebreakAll ending (tokens.map .ofToken) =
      (tokens.map (Token.rebreak ending)).map .ofToken := by
  induction tokens with
  | nil => rfl
  | cons token others inductionHypothesis =>
      rw [List.map_cons, rebreakAll, rebreak_ofToken, inductionHypothesis,
        List.map_cons, List.map_cons]

mutual

/-- An element without line endings stays as it is. -/
theorem rebreak_of_onLine :
    ∀ element : Element, OnLine element.leaves → rebreak ending element = element
  | leaf kind text, onLine => by
      rw [rebreak, if_neg (onLine ⟨kind, text⟩ (by simp [leaves]))]
  | node kind children, onLine => by
      rw [rebreak, rebreakAll_of_onLine children onLine]

/-- Elements without line endings stay as they are. -/
theorem rebreakAll_of_onLine :
    ∀ elements, OnLine (leavesOf elements) →
      rebreakAll ending elements = elements
  | [], _ => rfl
  | first :: others, onLine => by
      rw [leavesOf] at onLine
      rw [rebreakAll,
        rebreak_of_onLine first fun leaf member =>
          onLine leaf (List.mem_append_left _ member),
        rebreakAll_of_onLine others fun leaf member =>
          onLine leaf (List.mem_append_right _ member)]

end

mutual

/-- The leaves of a changed element are its leaves changed. -/
theorem leaves_rebreak :
    ∀ element : Element,
      (rebreak ending element).leaves =
        element.leaves.map (Token.rebreak ending)
  | leaf kind text => by
      rw [rebreak, leaves, List.map_singleton, Token.rebreak]
      split
      · rw [leaves]
      · rw [leaves]
  | node kind children => by
      rw [rebreak, leaves, leavesOf_rebreakAll children, leaves]

/-- The leaves of the changed elements are the changed leaves. -/
theorem leavesOf_rebreakAll :
    ∀ elements : List Element,
      leavesOf (rebreakAll ending elements) =
        (leavesOf elements).map (Token.rebreak ending)
  | [] => rfl
  | first :: others => by
      rw [rebreakAll, leavesOf, leaves_rebreak first,
        leavesOf_rebreakAll others, leavesOf, List.map_append]

end

end Element

/-! ## Elements of a line in front of other line endings -/

namespace Inline

/-- Elements of a line are the same in front of whatever else ends the line. -/
theorem Derives.before
    (derives : Derives stops previous tokens content last rest) :
    ∃ left, OnLine left ∧ rest = left ++ afterLine tokens ∧
      ∀ more, Line.atLineEnd more = true →
        Derives stops previous (currentLine tokens ++ more) content last
          (left ++ more) := by
  obtain ⟨value, isLast, isRest⟩ := derives.isResult
  have here := elements_of_currentLine stops previous tokens
  have onLine := onLine_currentLine tokens
  refine ⟨(elements stops previous (currentLine tokens)).rest, ?_, ?_, ?_⟩
  · exact onLine.of_suffix (derives_elements _ _ _).reads.suffix
  · rw [← isRest, here.rest]
  · intro more ended
    have there := (element_and_elements_extended ended).2 stops previous _ onLine
    have longer := derives_elements stops previous (currentLine tokens ++ more)
    rw [there.value, there.last, there.rest, ← here.value, ← here.last, value,
      isLast] at longer
    exact longer

/-- What was derived from a line has no line ending in it. -/
theorem Derives.onLine
    (derives : Derives stops previous tokens content last rest) :
    OnLine (Element.leavesOf content) := by
  obtain ⟨_, _, spells⟩ := derives.spells
  exact spells.kind_ne_newline

/-- Whether a line ends here does not depend on how it ends. -/
theorem atLineEnd_map_rebreak (tokens : List Token) :
    Line.atLineEnd (tokens.map (Token.rebreak ending)) =
      Line.atLineEnd tokens := by
  cases tokens with
  | nil => rfl
  | cons first others => simp [Line.atLineEnd]

/-- A derivation of elements goes through in front of other line endings, and the
elements are the same: they lie within a line. -/
theorem Derives.rebreak
    (derives : Derives stops previous tokens content last rest)
    (ending : String) :
    Derives stops previous (tokens.map (Token.rebreak ending)) content last
      (rest.map (Token.rebreak ending)) := by
  obtain ⟨left, onLine, rfl, before⟩ := derives.before
  have other := before ((afterLine tokens).map (Token.rebreak ending)) (by
    rw [atLineEnd_map_rebreak, atLineEnd_afterLine])
  rw [List.map_append, map_rebreak_of_onLine onLine]
  rwa [← map_rebreak_of_onLine (onLine_currentLine tokens), ← List.map_append,
    currentLine_append_afterLine] at other

end Inline

/-! ## Lines -/

namespace Line

open Inline (atLineEnd_map_rebreak)

/-- Whether tokens start with a kind does not depend on the texts of line endings. -/
theorem startsWith_map_rebreak
    (kind : Kind)
    (tokens : List Token) :
    startsWith kind (tokens.map (Token.rebreak ending)) =
      startsWith kind tokens := by
  cases tokens with
  | nil => rfl
  | cons first others => simp [startsWith]

/-- Whether tokens start with a fence does not depend on their line endings. -/
theorem atFence_map_rebreak
    (ending : String)
    (tokens : List Token) :
    atFence (tokens.map (Token.rebreak ending)) = atFence tokens := by
  match tokens with
  | [] | [_] | [_, _] => rfl
  | first :: second :: third :: others => simp [atFence]

/-- A blank line is one whatever its ending is. -/
theorem atBlankLine_map_rebreak (tokens : List Token) :
    Parse.atBlankLine (tokens.map (Token.rebreak ending)) =
      Parse.atBlankLine tokens := by
  cases tokens with
  | nil => rfl
  | cons first others => simp [Parse.atBlankLine, atLineEnd_map_rebreak]

theorem atVisible_map_rebreak (tokens : List Token) :
    atVisible (tokens.map (Token.rebreak ending)) = atVisible tokens := by
  rw [atVisible, atVisible, atBlankLine_map_rebreak, List.isEmpty_map]

/-- Tokens start with a heading of a level whatever their line endings are. -/
theorem headingLevel_map_rebreak
    (ending : String)
    (tokens : List Token) :
    headingLevel? (tokens.map (Token.rebreak ending)) =
      headingLevel? tokens := by
  have sameTest : (fun token : Token => token.kind == .hash) ∘
      Token.rebreak ending = (·.kind == .hash) := by
    funext token
    simp
  unfold headingLevel?
  rw [List.takeWhile_map, List.dropWhile_map, sameTest, List.length_map,
    startsWith_map_rebreak]

/-- The first line of changed tokens is the first line with its ending changed. -/
theorem takeLine_map_rebreak (tokens : List Token) :
    takeLine (tokens.map (Token.rebreak ending)) =
      ((takeLine tokens).1.map (Token.rebreak ending),
        (takeLine tokens).2.map (Token.rebreak ending)) := by
  induction tokens with
  | nil => rfl
  | cons first others inductionHypothesis =>
      rw [List.map_cons, takeLine, takeLine, Token.kind_rebreak]
      split
      · rfl
      · rw [inductionHypothesis, List.map_cons]

theorem takeLine_rebreak
    {current rest : List Token}
    (taken : takeLine tokens = (current, rest)) :
    takeLine (tokens.map (Token.rebreak ending)) =
      (current.map (Token.rebreak ending), rest.map (Token.rebreak ending)) := by
  rw [takeLine_map_rebreak, taken]

/-- A line starts with text whatever its ending is. -/
theorem startsText_map_rebreak (tokens : List Token) :
    startsText (tokens.map (Token.rebreak ending)) = startsText tokens := by
  cases tokens with
  | nil => rfl
  | cons token rest =>
      by_cases newline : token.kind = .newline
      · simp [startsText, newline]
      · rw [List.map_cons, Token.rebreak_of_visible newline]
        have level := headingLevel_map_rebreak ending (token :: rest)
        have fenced := atFence_map_rebreak ending (token :: rest)
        rw [List.map_cons, Token.rebreak_of_visible newline] at level fenced
        simp only [startsText, level, fenced, startsWith_map_rebreak]

/-- The ending of a line is taken from the changed tokens with its other text. -/
theorem Ending.rebreak
    (taken : Ending tokens elements rest)
    (ending : String) :
    Ending (tokens.map (Token.rebreak ending))
      (Element.rebreakAll ending elements)
      (rest.map (Token.rebreak ending)) := by
  cases taken with
  | taken newline =>
      rw [List.map_cons, Element.rebreakAll, Element.rebreak_ofToken]
      exact .taken ((Token.kind_rebreak _).trans newline)
  | missing => exact .missing

/-! ### Tables -/

theorem rebreak_delimiter (token : Token) :
    Element.rebreak ending (.ofDelimiter token) = .ofDelimiter token :=
  rfl

/-- Cells are within a line, so they are read from the changed tokens unchanged, up to
the ending of their row. -/
theorem Cells.rebreak
    (cells : Cells tokens parts rest)
    (ending : String) :
    Cells (tokens.map (Token.rebreak ending)) (Element.rebreakAll ending parts)
      (rest.map (Token.rebreak ending)) := by
  induction cells with
  | done ended => exact .done ((atLineEnd_map_rebreak _).trans ended)
  | blank space ended =>
      rw [List.map_cons, Element.rebreakAll, Element.rebreak_ofToken]
      exact .blank ((Token.kind_rebreak _).trans space)
        ((atLineEnd_map_rebreak _).trans ended)
  | @cell tokens content last bar middle others rest visible inside isPipe _
      inductionHypothesis =>
      have content := inside.rebreak ending
      have visibleBar : bar.kind ≠ .newline := isPipe ▸ by decide
      rw [List.map_cons, Token.rebreak_of_visible visibleBar] at content
      rw [Element.rebreakAll, Element.rebreakAll, Element.rebreak,
        Element.rebreakAll_of_onLine _ inside.onLine, rebreak_delimiter]
      exact .cell ((atVisible_map_rebreak _).trans visible) content isPipe
        inductionHypothesis
  | lastCell visible inside ended =>
      rw [Element.rebreakAll, Element.rebreakAll, Element.rebreak,
        Element.rebreakAll_of_onLine _ inside.onLine]
      exact .lastCell ((atVisible_map_rebreak _).trans visible)
        (inside.rebreak ending) ((atLineEnd_map_rebreak _).trans ended)

/-- A row is read from the changed tokens with its ending changed. -/
theorem Row.rebreak
    {element : Element}
    (row : Row tokens element rest)
    (ending : String) :
    Row (tokens.map (Token.rebreak ending)) (element.rebreak ending)
      (rest.map (Token.rebreak ending)) := by
  cases row with
  | @row tokens parts middle taken rest bar isPipe cells ended =>
      have visibleBar : bar.kind ≠ .newline := isPipe ▸ by decide
      rw [List.map_cons, Token.rebreak_of_visible visibleBar, Element.rebreak,
        List.cons_append, Element.rebreakAll, Element.rebreakAll_append,
        rebreak_delimiter, ← List.cons_append]
      exact .row isPipe (cells.rebreak ending) (ended.rebreak ending)

/-- The rows of a table are read from the changed tokens with their endings changed. -/
theorem Rows.rebreak
    (rows : Rows tokens elements rest)
    (ending : String) :
    Rows (tokens.map (Token.rebreak ending))
      (Element.rebreakAll ending elements)
      (rest.map (Token.rebreak ending)) := by
  induction rows with
  | done other => exact .done ((startsWith_map_rebreak _ _).trans other)
  | next row _ inductionHypothesis =>
      exact .next (row.rebreak ending) inductionHypothesis

/-! ### Code blocks -/

/-- A fence has no line ending to change. -/
theorem IsFence.map_rebreak (isFence : IsFence ticks) :
    ticks.map (Token.rebreak ending) = ticks :=
  map_rebreak_of_kind (by decide) isFence.kind

/-- The line that closes a code block has its ending changed like any other. -/
theorem rebreakAll_closingLine (tokens : List Token) :
    Element.rebreakAll ending (closingLine tokens) =
      closingLine (tokens.map (Token.rebreak ending)) := by
  induction tokens with
  | nil => rfl
  | cons token others inductionHypothesis =>
      rw [closingLine, List.map_cons, Element.rebreakAll, List.map_cons,
        closingLine, List.map_cons, Token.kind_rebreak]
      refine congrArg₂ List.cons ?_ inductionHypothesis
      split
      · exact Element.rebreak_ofToken token
      · rename_i visible
        rw [Token.rebreak_of_visible visible]
        rfl

/-- The lines of a code block are read from the changed tokens with their endings
changed. -/
theorem CodeLines.rebreak
    (lines : CodeLines tokens elements rest)
    (ending : String) :
    CodeLines (tokens.map (Token.rebreak ending))
      (Element.rebreakAll ending elements)
      (rest.map (Token.rebreak ending)) := by
  induction lines with
  | missing => exact .missing
  | fence isFence taken =>
      rw [List.map_append, isFence.map_rebreak, Element.rebreakAll,
        rebreakAll_closingLine]
      exact .fence isFence (takeLine_rebreak taken)
  | line unfenced taken _ inductionHypothesis =>
      rw [Element.rebreakAll_append, Element.rebreakAll_ofTokens]
      exact .line ((atFence_map_rebreak ending _).trans unfenced)
        (takeLine_rebreak taken) inductionHypothesis

/-! ### All lines -/

/-- A marker is read from the changed tokens as it is. -/
theorem Marker.rebreak
    (marker : Marker tokens kind element rest)
    (ending : String) :
    Marker (tokens.map (Token.rebreak ending)) kind element
        (rest.map (Token.rebreak ending)) ∧
      element.rebreak ending = element := by
  cases marker with
  | heading nonempty short isHash =>
      rw [List.map_append, map_rebreak_of_kind (by decide) isHash]
      exact ⟨.heading nonempty short isHash, rfl⟩
  | @unorderedItem token _ isMark =>
      have visible : token.kind ≠ .newline := by
        rcases isMark with isMark | isMark <;> rw [isMark] <;> decide
      rw [List.map_cons, Token.rebreak_of_visible visible]
      exact ⟨.unorderedItem isMark, rfl⟩
  | @orderedItem token _ isText isNumber =>
      have visible : token.kind ≠ .newline := isText ▸ by decide
      rw [List.map_cons, Token.rebreak_of_visible visible]
      exact ⟨.orderedItem isText isNumber, rfl⟩

/-- The lines that belong together are read from the changed tokens with their endings
changed. Each case is the same rule again, with the facts above for its conditions. -/
theorem Block.rebreak
    (block : Block tokens elements rest)
    (ending : String) :
    Block (tokens.map (Token.rebreak ending))
      (Element.rebreakAll ending elements)
      (rest.map (Token.rebreak ending)) := by
  cases block with
  | @marked tokens kind leaf blank middle content last left taken rest marker
      isBlank inside ended =>
      obtain ⟨again, same⟩ := marker.rebreak ending
      have visible : blank.kind ≠ .newline := isBlank ▸ by decide
      rw [List.map_cons, Token.rebreak_of_visible visible] at again
      have whole : Element.rebreakAll ending
          [.node kind (leaf :: .ofToken blank :: content ++ taken)] =
            [.node kind (leaf :: .ofToken blank :: content ++
              Element.rebreakAll ending taken)] := by
        simp only [Element.rebreakAll, Element.rebreak, List.cons_append,
          Element.rebreakAll_append, same, Element.rebreak_ofToken,
          Token.rebreak_of_visible visible,
          Element.rebreakAll_of_onLine _ inside.onLine]
      rw [whole]
      exact .marked again isBlank (inside.rebreak ending) (ended.rebreak ending)
  | table row rows => exact .table (row.rebreak ending) (rows.rebreak ending)
  | @codeBlock ticks _ command _ others _ isFence named lines =>
      have whole : Element.rebreakAll ending
          [.node .codeBlock
            (glued .delimiter ticks :: command.map .ofToken ++ others)] =
            [.node .codeBlock
              (glued .delimiter ticks ::
                (command.map (Token.rebreak ending)).map .ofToken ++
                Element.rebreakAll ending others)] := by
        simp only [Element.rebreakAll, Element.rebreak, List.cons_append,
          Element.rebreakAll_append, Element.rebreakAll_ofTokens]
        rfl
      rw [whole, List.map_append, isFence.map_rebreak]
      exact .codeBlock isFence (takeLine_rebreak named) (lines.rebreak ending)
  | text starts inside ended =>
      rw [Element.rebreakAll_append,
        Element.rebreakAll_of_onLine _ inside.onLine]
      exact .text ((startsText_map_rebreak _).trans starts)
        (inside.rebreak ending) (ended.rebreak ending)

end Line

/-! ## Sources -/

namespace Parse

open Line (atVisible_map_rebreak atBlankLine_map_rebreak)

theorem Lines.rebreak
    (lines : Lines tokens elements rest)
    (ending : String) :
    Lines (tokens.map (Token.rebreak ending))
      (Element.rebreakAll ending elements)
      (rest.map (Token.rebreak ending)) := by
  induction lines with
  | last block stops =>
      exact .last (block.rebreak ending) ((atVisible_map_rebreak _).trans stops)
  | next block goesOn _ inductionHypothesis =>
      rw [Element.rebreakAll_append]
      exact .next (block.rebreak ending)
        ((atVisible_map_rebreak _).trans goesOn) inductionHypothesis

/-- A layout of tokens is one of the changed tokens with its line endings changed. -/
theorem Layout.rebreak
    (layout : Layout tokens elements)
    (ending : String) :
    Layout (tokens.map (Token.rebreak ending))
      (Element.rebreakAll ending elements) := by
  induction layout with
  | nil => exact .nil
  | blank blank _ inductionHypothesis =>
      rw [Element.rebreakAll, Element.rebreak_ofToken]
      exact .blank ((atBlankLine_map_rebreak _).trans blank) inductionHypothesis
  | paragraph visible lines _ inductionHypothesis =>
      exact .paragraph ((atVisible_map_rebreak _).trans visible)
        (lines.rebreak ending) inductionHypothesis

end Parse

/-- Tokens with other texts for the line endings have the tree with other texts
for the line endings. -/
theorem parseTokens_map_rebreak
    (ending : String)
    (tokens : List Token) :
    parseTokens (tokens.map (Token.rebreak ending)) =
      (parseTokens tokens).rebreak ending := by
  rw [parseTokens, ((Parse.layout_sections tokens).rebreak ending).eq_sections]
  rfl

end

/-! ## Tokens of a source with carriage returns -/

namespace Lexer

open Text (returned)

/-- A run of characters goes as far in front of other line endings, when neither a line
feed nor a carriage return can belong to it. -/
theorem takeWhile_returned
    (test : Char → Bool)
    (noFeed : test '\n' = false)
    (noReturn : test '\r' = false)
    (characters : List Char) :
    (returned characters).takeWhile test = characters.takeWhile test ∧
      (returned characters).dropWhile test =
        returned (characters.dropWhile test) := by
  induction characters with
  | nil => exact ⟨rfl, rfl⟩
  | cons first others inductionHypothesis =>
      by_cases feed : first = '\n'
      · subst feed
        rw [Text.returned_lineFeed]
        simp [noFeed, noReturn, Text.returned_lineFeed]
      · rw [Text.returned_cons_of_ne feed, List.takeWhile_cons,
          List.takeWhile_cons, List.dropWhile_cons, List.dropWhile_cons,
          inductionHypothesis.1]
        split
        · exact ⟨rfl, inductionHypothesis.2⟩
        · exact ⟨rfl, (Text.returned_cons_of_ne feed others).symm⟩

/-- A token that is such a run is the same, and what is left has the other line
endings. -/
theorem takeRun_returned
    (test : Char → Bool)
    (noFeed : test '\n' = false)
    (noReturn : test '\r' = false)
    (kind : Kind)
    (first : Char)
    (rest : List Char) :
    takeRun kind test first (returned rest) =
      ((takeRun kind test first rest).1,
        returned (takeRun kind test first rest).2) := by
  obtain ⟨taken, left⟩ := takeWhile_returned test noFeed noReturn rest
  rw [takeRun, takeRun, taken, left]

/-- A token that is no line ending is the same in front of other line endings. -/
theorem nextToken_returned
    (noFeed : first ≠ '\n')
    (noReturn : first ≠ '\r')
    (rest : List Char) :
    nextToken first (returned rest) =
      ((nextToken first rest).1, returned (nextToken first rest).2) := by
  have letters := (takeWhile_returned isTagLetter (by decide) (by decide)
    rest).1
  have names := (takeWhile_returned isNameCharacter (by decide) (by decide)
    rest).1
  unfold nextToken
  simp only [noFeed, noReturn, if_false, letters, names,
    takeRun_returned Text.isSpacing (by decide) (by decide),
    takeRun_returned isTagLetter (by decide) (by decide),
    takeRun_returned isNameCharacter (by decide) (by decide),
    takeRun_returned isPlain (by decide) (by decide)]
  split_ifs
  · rfl
  · cases rest.takeWhile isTagLetter <;> rfl
  · cases rest.takeWhile isNameCharacter <;> rfl
  · cases punctuation? first with
    | some kind => rfl
    | none => rfl
  · cases punctuation? first with
    | some kind => rfl
    | none => rfl

/-- The lexer makes no line ending of a character that is not one. -/
theorem nextToken_visible
    (noFeed : first ≠ '\n')
    (noReturn : first ≠ '\r')
    (rest : List Char) :
    (nextToken first rest).1.kind ≠ .newline := by
  have visible {kind : Kind} (sign : punctuation? first = some kind) :
      kind ≠ .newline := by
    rintro rfl
    cases punctuation_sign sign
  unfold nextToken takeRun
  simp only [noFeed, noReturn, if_false]
  repeat' split
  all_goals first
    | exact visible ‹_›
    | exact Kind.noConfusion

/-- The tokens of a source with carriage returns put in are those of the source with
other texts for the line endings. -/
theorem tokens_returned
    (characters : List Char)
    (plain : '\r' ∉ characters) :
    tokens (returned characters) =
      (tokens characters).map (Token.rebreak "\r\n") := by
  induction characters using tokens.induct with
  | case1 => rw [returned, List.flatMap_nil, tokens, List.map_nil]
  | case2 first rest inductionHypothesis =>
      have later := inductionHypothesis fun member =>
        plain ((suffix_nextToken first rest).subset member)
      by_cases feed : first = '\n'
      · subst feed
        rw [Text.returned_lineFeed, tokens, tokens]
        exact congrArg₂ List.cons rfl later
      · have noReturn : first ≠ '\r' := by
          rintro rfl
          exact plain List.mem_cons_self
        rw [Text.returned_cons_of_ne feed, tokens,
          nextToken_returned feed noReturn, later, tokens, List.map_cons,
          Token.rebreak_of_visible (nextToken_visible feed noReturn rest)]

end Lexer

/-- A source without carriage returns, with one put in front of every line feed,
has the same tree but for the texts of its line endings. -/
theorem parse_withReturns
    (source : String)
    (plain : '\r' ∉ source.toList) :
    parse (Text.withReturns source) = (parse source).rebreak "\r\n" := by
  rw [parse, lex, Text.toList_withReturns, Lexer.tokens_returned _ plain,
    parseTokens_map_rebreak, parse, lex]

/-! ## The leaves of a source without carriage returns -/

/-- Leaves with other texts for the line endings spell the tokens with other texts
for the line endings. -/
theorem charactersOf_leaves_rebreak
    (source ending : String) :
    charactersOf ((parse source).leaves.map (Token.rebreak ending)) =
      charactersOf ((lex source).map (Token.rebreak ending)) := by
  have whole := (Parse.reads_sections
    ((lex source).map (Token.rebreak ending))).join_text
  have same : Parse.sections ((lex source).map (Token.rebreak ending)) =
      Element.rebreakAll ending (Parse.sections (lex source)) :=
    ((Parse.layout_sections (lex source)).rebreak ending).eq_sections
  rw [same, Element.leavesOf_rebreakAll, ← leaves_parse] at whole
  have characters := congrArg String.toList whole
  simpa [String.toList_append, String.toList_join, List.flatMap_map,
    charactersOf] using characters.symm

/-- Only line endings hold line feeds: where they have no text, none is left. -/
theorem lineFeed_notMem_of_mem_leaves
    {source : String}
    {leaf : Token}
    (member : leaf ∈ (parse source).leaves)
    (visible : leaf.kind ≠ .newline) :
    '\n' ∉ leaf.text.toList := by
  intro feed
  have inLeaves : '\n' ∈
      charactersOf ((parse source).leaves.map (Token.rebreak "")) := by
    refine List.mem_flatMap.mpr ⟨leaf, ?_, feed⟩
    exact List.mem_map.mpr ⟨leaf, member, Token.rebreak_of_visible visible⟩
  rw [charactersOf_leaves_rebreak] at inLeaves
  obtain ⟨_, isChanged, inside⟩ := List.mem_flatMap.mp inLeaves
  obtain ⟨token, isToken, rfl⟩ := List.mem_map.mp isChanged
  by_cases newline : token.kind = .newline
  · simp [Token.rebreak, newline] at inside
  · rw [Token.rebreak_of_visible newline] at inside
    exact newline ((allLexed_lex source token isToken).kind_of_mem rfl inside)

/-- A line ending in a source without carriage returns is a line feed. -/
theorem Token.IsLexed.text_of_newline
    {token : Token}
    (lexed : token.IsLexed)
    (newline : token.kind = .newline)
    (plain : '\r' ∉ token.text.toList) :
    token.text = "\n" := by
  rcases lexed.cases_of_isLexed with
    ⟨other, _⟩ | ⟨_, feed | feed⟩ | ⟨_, sign, _⟩ | other
  · rw [newline] at other
    cases other
  · exact feed
  · rw [feed] at plain
    exact absurd (by decide) plain
  · rw [newline] at sign
    cases Lexer.punctuation_sign sign
  · rw [newline] at other
    exact absurd other (by decide)

/-- Without carriage returns, all line endings are line feeds already. -/
theorem map_rebreak_lex
    (plain : '\r' ∉ source.toList) :
    (lex source).map (Token.rebreak "\n") = lex source := by
  have same : ∀ token ∈ lex source, token.rebreak "\n" = token := by
    intro token member
    by_cases newline : token.kind = .newline
    · have inside : '\r' ∉ token.text.toList := by
        intro inText
        rw [← join_text_lex source, String.toList_join, List.flatMap_map]
          at plain
        exact plain (List.mem_flatMap.mpr ⟨token, member, inText⟩)
      have feed := (allLexed_lex source token member).text_of_newline newline
        inside
      rw [Token.rebreak, if_pos newline, ← newline, ← feed]
    · exact Token.rebreak_of_visible newline
  have mapped := List.map_congr_left same
  rwa [List.map_id'] at mapped

/-- A line ending in the tree of a source without carriage returns is a line feed. -/
theorem text_of_mem_leaves_of_newline
    {leaf : Token}
    (plain : '\r' ∉ source.toList)
    (member : leaf ∈ (parse source).leaves)
    (newline : leaf.kind = .newline) :
    leaf.text = "\n" := by
  have same := parseTokens_map_rebreak "\n" (lex source)
  rw [map_rebreak_lex plain, ← parse] at same
  rw [same, Element.leaves_rebreak] at member
  obtain ⟨inner, _, rfl⟩ := List.mem_map.mp member
  rw [Token.kind_rebreak] at newline
  rw [Token.rebreak, if_pos newline]

/-- Changing the line endings of the leaves puts carriage returns in front of the
line feeds of their texts. -/
theorem returned_of_mem_leaves
    {leaf : Token}
    (plain : '\r' ∉ source.toList)
    (member : leaf ∈ (parse source).leaves) :
    (leaf.rebreak "\r\n").text.toList = Text.returned leaf.text.toList := by
  by_cases newline : leaf.kind = .newline
  · rw [text_of_mem_leaves_of_newline plain member newline, Token.rebreak,
      if_pos newline]
    decide
  · rw [Token.rebreak_of_visible newline, Text.returned_of_notMem
      (lineFeed_notMem_of_mem_leaves member newline)]

end Markup
end NotePress
