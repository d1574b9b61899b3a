import NotePress.Proofs.Document.Malformations
import NotePress.Proofs.Markup.LexedLines
import NotePress.Proofs.Markup.OpenParagraphs
import NotePress.Proofs.Page.Headings

/-!
# Lines of ordered items

A line is an ordered item when it starts with digits, with a point behind them and
brackets around them as one likes, and a blank after that. The item is the whole
line, wherever the line stands among other lines (`IsItemLine.children_parse`);
nothing else is an ordered item.
-/

namespace NotePress
namespace Markup

/-! ## Markers -/

/-- Decimal digits, one at least. -/
structure IsNumeral (digits : String) : Prop where
  nonempty : digits ≠ ""
  areDigits : ∀ digit ∈ digits.toList, digit.isDigit = true

/-- The markers with some digits. -/
def orderedMarkers (digits : String) : List String :=
  [digits ++ ".", "(" ++ digits ++ ".", digits ++ ").", "(" ++ digits ++ ")."]

namespace Line

theorem stripFirst_cons
    (first : Char)
    (list : List Char) :
    stripFirst? first (first :: list) = some list := by
  simp [stripFirst?]

theorem stripFirst_of_notMem
    {first : Char}
    {list : List Char}
    (absent : first ∉ list) :
    stripFirst? first list = none := by
  rw [stripFirst?, if_neg]
  exact fun isFirst => absent (List.mem_of_head? isFirst)

/-- What is stripped of a text stood at its end. -/
theorem getD_stripLast
    (last : Char)
    (text : List Char) :
    text = (stripLast? last text).getD text ∨
      text = (stripLast? last text).getD text ++ [last] := by
  cases stripped : stripLast? last text with
  | none => exact .inl rfl
  | some rest => exact .inr (Document.Reading.eq_append_of_stripLast stripped)

theorem getD_stripFirst
    (first : Char)
    (text : List Char) :
    text = (stripFirst? first text).getD text ∨
      text = first :: (stripFirst? first text).getD text := by
  cases stripped : stripFirst? first text with
  | none => exact .inl rfl
  | some rest => exact .inr (Document.Reading.eq_cons_of_stripFirst stripped)

/-- The marker test accepts the markers with digits and nothing else. -/
theorem isOrderedMarker_iff {marker : String} :
    isOrderedMarker marker.toList = true ↔
      ∃ digits, IsNumeral digits ∧ marker ∈ orderedMarkers digits := by
  constructor
  · intro isMarker
    unfold isOrderedMarker at isMarker
    split at isMarker
    · cases isMarker
    · rename_i numbered pointed
      simp only [Bool.and_eq_true, Bool.not_eq_true', List.isEmpty_eq_false_iff,
        List.all_eq_true] at isMarker
      obtain ⟨nonempty, areDigits⟩ := isMarker
      have whole := Document.Reading.eq_append_of_stripLast pointed
      have opened := getD_stripFirst '(' numbered
      generalize (stripFirst? '(' numbered).getD numbered = inside
        at opened nonempty areDigits
      have closed := getD_stripLast ')' inside
      generalize (stripLast? ')' inside).getD inside = digits
        at closed nonempty areDigits
      refine ⟨String.ofList digits, ⟨?_, by simpa using areDigits⟩, ?_⟩
      · simpa using nonempty
      · simp only [orderedMarkers, List.mem_cons, List.not_mem_nil, or_false,
          ← String.toList_inj, String.toList_append, String.toList_ofList, whole]
        rcases opened with rfl | rfl <;> rcases closed with rfl | rfl <;> simp
  · rintro ⟨digits, isNumeral, isForm⟩
    have noOpening : '(' ∉ digits.toList := fun member => by
      cases isNumeral.areDigits '(' member
    have noClosing : ')' ∉ digits.toList := fun member => by
      cases isNumeral.areDigits ')' member
    have nonempty : digits.toList ≠ [] :=
      mt String.toList_eq_nil_iff.mp isNumeral.nonempty
    have accepted : ∀ {numbered : List Char},
        (stripLast? ')' ((stripFirst? '(' numbered).getD numbered)).getD
          ((stripFirst? '(' numbered).getD numbered) = digits.toList →
        isOrderedMarker (numbered ++ ['.']) = true := by
      intro numbered inside
      simp only [isOrderedMarker, Document.Reading.stripLast_concat, inside,
        Bool.and_eq_true, Bool.not_eq_true', List.isEmpty_eq_false_iff,
        List.all_eq_true]
      exact ⟨nonempty, isNumeral.areDigits⟩
    have bare : stripLast? ')' digits.toList = none :=
      Document.Reading.stripLast_of_notMem noClosing
    simp only [orderedMarkers, List.mem_cons, List.not_mem_nil, or_false] at isForm
    rcases isForm with rfl | rfl | rfl | rfl
    · rw [String.toList_append]
      apply accepted
      simp [stripFirst_of_notMem noOpening, bare]
    · rw [String.toList_append, String.toList_append]
      apply accepted
      simp [stripFirst_cons, bare]
    · have noBracket : '(' ∉ digits.toList ++ [')'] := by simp [noOpening]
      rw [show digits ++ ")." = digits ++ ")" ++ "." by simp [String.append_assoc],
        String.toList_append, String.toList_append]
      apply accepted
      simp [stripFirst_of_notMem noBracket, Document.Reading.stripLast_concat]
    · rw [show "(" ++ digits ++ ")." = "(" ++ (digits ++ ")") ++ "." by
          simp [String.append_assoc],
        String.toList_append, String.toList_append, String.toList_append]
      apply accepted
      simp [stripFirst_cons, Document.Reading.stripLast_concat]

end Line

/-- The brackets and the point are not among the digits of a marker. -/
theorem writtenNumber_orderedMarkers
    {digits marker : String}
    (isForm : marker ∈ orderedMarkers digits) :
    Document.writtenNumber marker.toList =
      Document.writtenNumber digits.toList := by
  have opening : '('.isDigit = false := by decide
  have closing : ')'.isDigit = false := by decide
  have point : '.'.isDigit = false := by decide
  simp only [orderedMarkers, List.mem_cons, List.not_mem_nil, or_false] at isForm
  rcases isForm with rfl | rfl | rfl | rfl <;>
    simp [Document.writtenNumber, List.filter_append, opening, closing, point]

/-! ## Tokens of the line -/

namespace Lexer

theorem isPlain_of_isDigit (isDigit : character.isDigit = true) :
    isPlain character = true := by
  have visible : Text.isBlank character = false := by
    have range : 48 ≤ character.toNat ∧ character.toNat ≤ 57 := by
      simpa [Char.isDigit, UInt32.le_iff_toNat_le] using isDigit
    simp only [Text.isBlank, Bool.or_eq_false_iff, Bool.and_eq_false_iff,
      decide_eq_false_iff_not, beq_eq_false_iff_ne]
    omega
  have unpunctuated : punctuation? character = none := by
    unfold punctuation?
    split <;> first | rfl | cases isDigit
  have noHash : character ≠ '#' := by
    rintro rfl
    cases isDigit
  have noMention : character ≠ '@' := by
    rintro rfl
    cases isDigit
  simp [isPlain, visible, unpunctuated, noHash, noMention]

/-- Plain characters up to a blank are one token. -/
theorem tokens_plain
    {first : Char}
    {rest : List Char}
    (plain : ∀ character ∈ first :: rest, isPlain character = true)
    (following : List Char) :
    tokens (first :: rest ++ ' ' :: following) =
      ⟨.text, String.ofList (first :: rest)⟩ :: tokens (' ' :: following) := by
  obtain ⟨firstPlain, restPlain⟩ := List.forall_mem_cons.mp plain
  have stops : isPlain ' ' = false := by decide
  rw [List.cons_append, tokens, nextToken_of_isPlain firstPlain, takeRun,
    List.takeWhile_append_of_pos restPlain, List.dropWhile_append_of_pos restPlain,
    List.takeWhile_cons_of_neg (by simp [stops]),
    List.dropWhile_cons_of_neg (by simp [stops]), List.append_nil]

/-- A line break goes on no token of plain text that does not end in a carriage
return. -/
theorem nextToken_append_break
    {first : Char}
    {rest after : List Char}
    (ordinary : ∀ character ∈ first :: rest, isOrdinary character = true)
    (noReturn : EndsIn (· ≠ '\r') (first :: rest))
    (breaks : ∀ next, after.head? = some next → next = '\n' ∨ next = '\r') :
    nextToken first (rest ++ after) =
      ((nextToken first rest).1, (nextToken first rest).2 ++ after) := by
  have nothing : ∀ {test : Char → Bool}, test '\n' = false → test '\r' = false →
      after.takeWhile test = [] := by
    intro test noFeed noReturn
    cases after with
    | nil => rfl
    | cons next others =>
        rcases breaks next rfl with rfl | rfl <;> simp [noFeed, noReturn]
  have run : ∀ test : Char → Bool, test '\n' = false → test '\r' = false →
      ∀ kind, takeRun kind test first (rest ++ after) =
        ((takeRun kind test first rest).1, (takeRun kind test first rest).2 ++ after) := by
    intro test noFeed noReturn kind
    rw [takeRun, takeRun, takeWhile_append_of_eq_nil rest (nothing noFeed noReturn),
      dropWhile_append_of_eq_nil rest (nothing noFeed noReturn)]
  have isOrdinary := ordinary first List.mem_cons_self
  simp only [Lexer.isOrdinary, Bool.and_eq_true, bne_iff_ne, ne_eq,
    Option.isNone_iff_eq_none] at isOrdinary
  obtain ⟨⟨⟨noFeed, noHash⟩, noMention⟩, unpunctuated⟩ := isOrdinary
  unfold nextToken
  simp only [run Text.isSpacing (by decide) (by decide),
    run isPlain (by decide) (by decide), noFeed, noHash, noMention,
    unpunctuated, if_false]
  split_ifs with _ isReturn
  · rfl
  · have goesOn : rest ≠ [] := noReturn.ne_nil (not_not.mpr isReturn)
    obtain ⟨second, others, rfl⟩ := List.exists_cons_of_ne_nil goesOn
    have feed : second ≠ '\n' := by
      rintro rfl
      have isFeed := ordinary '\n' (by simp)
      exact absurd isFeed (by decide)
    simp [feed]
  · rfl
  · rfl

/-- The tokens of plain text are the same in front of a line break. -/
theorem tokens_append_break
    {characters after : List Char}
    (ordinary : ∀ character ∈ characters, isOrdinary character = true)
    (noReturn : EndsIn (· ≠ '\r') characters)
    (breaks : ∀ next, after.head? = some next → next = '\n' ∨ next = '\r') :
    tokens (characters ++ after) = tokens characters ++ tokens after := by
  induction characters using tokens.induct with
  | case1 => rw [List.nil_append, tokens, List.nil_append]
  | case2 first rest inductionHypothesis =>
      have isSuffix := suffix_nextToken first rest
      rw [List.cons_append, tokens, nextToken_append_break ordinary noReturn breaks,
        inductionHypothesis
          (fun character member =>
            ordinary character (isSuffix.subset member))
          (noReturn.of_suffix isSuffix),
        tokens, List.cons_append]

end Lexer

/-- What ends a line: a line break, or nothing when nothing is below. -/
structure EndsLine (ending below : String) : Prop where
  isEnding : ending = "" ∨ ending = "\n" ∨ ending = "\r\n"
  last : ending = "" → below = ""

/-- The line of an ordered item: a marker, a space and the title. -/
def itemSource
    (marker title : String) : String :=
  marker ++ " " ++ title

/-- The elements of an ordered item. -/
def itemElements
    (marker title ending : String) : List Element :=
  .leaf .orderedMarker marker :: .ofToken spaceToken ::
    (lex title).map .ofToken ++ (lex ending).map .ofToken

theorem EndsLine.lex_append
    (endsLine : EndsLine ending below) :
    lex (ending ++ below) = lex ending ++ lex below := by
  apply Markup.lex_append
  rcases endsLine.isEnding with rfl | rfl | rfl
  · exact .nil _
  all_goals
    rintro _ ⟨⟩
    rfl

theorem EndsLine.taken
    (endsLine : EndsLine ending below) :
    Line.Ending (lex (ending ++ below)) ((lex ending).map .ofToken) (lex below) := by
  rw [endsLine.lex_append]
  rcases endsLine.isEnding with isEmpty | rfl | rfl
  · rw [isEmpty, endsLine.last isEmpty, lex_empty]
    exact .missing
  · have single : lex "\n" = [⟨.newline, "\n"⟩] := by decide +kernel
    rw [single]
    exact .taken rfl
  · have single : lex "\r\n" = [⟨.newline, "\r\n"⟩] := by decide +kernel
    rw [single]
    exact .taken rfl

theorem Line.Ending.stopsAt
    (taken : Line.Ending tokens ending rest) :
    Inline.stopsAt (fun _ => false) tokens = true := by
  cases taken with
  | taken newline => simp [Inline.stopsAt, newline]
  | missing => rfl

section Item

variable
  {digits marker title ending below : String}
  (isNumeral : IsNumeral digits)
  (isForm : marker ∈ orderedMarkers digits)
  (isTitle : IsTitle title)
  (endsLine : EndsLine ending below)

include isNumeral isForm

/-- A marker is plain characters. -/
theorem exists_plain_marker :
    ∃ first rest, marker.toList = first :: rest ∧
      ∀ character ∈ first :: rest, Lexer.isPlain character = true := by
  have isPlain : ∀ character ∈ marker.toList, Lexer.isPlain character = true := by
    have digitIsPlain := fun digit member =>
      Lexer.isPlain_of_isDigit (isNumeral.areDigits digit member)
    have opening : Lexer.isPlain '(' = true := by decide
    have closing : Lexer.isPlain ')' = true := by decide
    have point : Lexer.isPlain '.' = true := by decide
    simp only [orderedMarkers, List.mem_cons, List.not_mem_nil, or_false] at isForm
    intro character member
    rcases isForm with rfl | rfl | rfl | rfl <;>
      simp only [String.toList_append, List.mem_append] at member <;>
      aesop
  have nonempty : marker.toList ≠ [] := by
    rw [ne_eq, String.toList_eq_nil_iff]
    simp only [orderedMarkers, List.mem_cons, List.not_mem_nil, or_false] at isForm
    rcases isForm with rfl | rfl | rfl | rfl <;> simp [String.append_eq_empty_iff]
  obtain ⟨first, rest, whole⟩ := List.exists_cons_of_ne_nil nonempty
  rw [whole] at isPlain
  exact ⟨first, rest, whole, isPlain⟩

include isTitle endsLine

/-- The marker is the first token of the line. -/
theorem lex_itemSource :
    lex (itemSource marker title ++ (ending ++ below)) =
      ⟨.text, marker⟩ :: spaceToken :: (lex title ++ lex (ending ++ below)) := by
  obtain ⟨first, rest, whole, plain⟩ := exists_plain_marker isNumeral isForm
  have characters : (itemSource marker title ++ (ending ++ below)).toList =
      first :: rest ++ ' ' :: (title.toList ++ (ending ++ below).toList) := by
    simp [itemSource, whole]
  have visible : ∀ next, (title.toList ++ (ending ++ below).toList).head? = some next →
      Text.isBlank next = false := by
    intro next isNext
    have nonempty : title.toList ≠ [] :=
      mt String.toList_eq_nil_iff.mp isTitle.nonempty
    rw [List.head?_append_of_ne_nil _ nonempty] at isNext
    exact isTitle.starts next isNext
  have noReturn : EndsIn (· ≠ '\r') title.toList := by
    rintro last isLast rfl
    cases isTitle.ends '\r' isLast
  have breaks : ∀ next, (ending ++ below).toList.head? = some next →
      next = '\n' ∨ next = '\r' := by
    intro next isNext
    rw [String.toList_append] at isNext
    rcases endsLine.isEnding with isEmpty | rfl | rfl
    · rw [isEmpty, endsLine.last isEmpty] at isNext
      cases isNext
    · exact .inl (Option.some.inj isNext).symm
    · exact .inr (Option.some.inj isNext).symm
  rw [lex, characters, Lexer.tokens_plain plain, Lexer.tokens_space visible,
    Lexer.tokens_append_break isTitle.ordinary noReturn breaks, ← whole,
    String.ofList_toList, lex, lex]

/-- The line is an ordered item. -/
theorem block_itemSource :
    Line.Block (lex (itemSource marker title ++ (ending ++ below)))
      [.node .orderedItem (itemElements marker title ending)] (lex below) := by
  have isMarker := Line.isOrderedMarker_iff.mpr ⟨digits, isNumeral, isForm⟩
  rw [lex_itemSource isNumeral isForm isTitle endsLine]
  have content : Inline.Derives (fun _ => false) .whitespace
      (lex title ++ lex (ending ++ below)) ((lex title).map .ofToken ++ []) _ _ :=
    .words (areWords_lex isTitle) (fun _ _ => rfl) (.done endsLine.taken.stopsAt)
  have marked (following : List Token) :
      Line.Marker (⟨.text, marker⟩ :: following) .orderedItem
        (.leaf .orderedMarker marker) following :=
    .orderedItem rfl isMarker
  have block := Line.Block.marked (marked (spaceToken :: _)) rfl content endsLine.taken
  rw [List.append_nil] at block
  exact block

end Item

/-! ## The line among other lines -/

/-- The line of a block and those below it that are in the same paragraph. -/
theorem exists_lines_of_block
    (block : Line.Block tokens elements rest) :
    ∃ more left, Parse.Lines tokens (elements ++ more) left := by
  by_cases visible : Line.atVisible rest = true
  · obtain ⟨next, others, rfl⟩ :=
      List.exists_cons_of_ne_nil (Line.ne_nil_of_atVisible visible)
    have notNewline : next.kind ≠ .newline := by
      intro newline
      simp [Line.atVisible, Parse.atBlankLine, newline] at visible
    exact ⟨_, _, .next block visible
      (Parse.lines_paragraphLines next others notNewline)⟩
  · refine ⟨[], rest, ?_⟩
    rw [List.append_nil]
    exact .last block (Bool.eq_false_iff.mpr visible)

theorem endsIn_of_startsLine
    {before : String}
    (startsLine : before = "" ∨ before.toList.getLast? = some '\n') :
    EndsIn (· = '\n') before.toList := by
  rcases startsLine with rfl | isLast
  · exact .nil _
  · intro last member
    rw [isLast] at member
    exact (Option.mem_some.mp member).symm

/-- The line of an ordered item with some digits, below `before` and above
`below`. -/
structure IsItemLine (digits marker title before ending below : String) : Prop where
  isNumeral : IsNumeral digits
  isForm : marker ∈ orderedMarkers digits
  isTitle : IsTitle title
  startsLine : before = "" ∨ before.toList.getLast? = some '\n'
  /-- What is in a code block is no line of its own. -/
  closed : ∀ element ∈ (parse before).subtrees, element.isOpenCodeBlock = false
  endsLine : EndsLine ending below

/-- The line is an ordered item below whole lines, too. -/
theorem IsItemLine.children_parse
    (line : IsItemLine digits marker title before ending below) :
    ∃ front begun more others,
      Parse.CutOpen (parse before).children front begun ∧
      (parse (before ++ (itemSource marker title ++ (ending ++ below)))).children =
        front ++ .node .paragraph (begun ++
          .node .orderedItem (itemElements marker title ending) :: more) ::
            others := by
  have endsIn := endsIn_of_startsLine line.startsLine
  have fenced : Fenced (Parse.sections (lex before)) := fun element member =>
    line.closed element (Element.subtreesOf_subset_subtrees_node .root _ member)
  have block := block_itemSource line.isNumeral line.isForm line.isTitle line.endsLine
  have tokens := lex_itemSource line.isNumeral line.isForm line.isTitle line.endsLine
  obtain ⟨more, left, lines⟩ := exists_lines_of_block block
  obtain ⟨front, begun, cut, goesOn⟩ :=
    (Parse.layout_sections (lex before)).goOn (sourceLines_lex endsIn) fenced
  refine ⟨front, begun, more, Parse.sections left, cut, ?_⟩
  rw [parse, lex_append before _ endsIn, parseTokens, Element.children]
  refine (goesOn ?_ ?_ lines (Parse.layout_sections left)).eq_sections
  · rw [tokens]
    rfl
  · rw [tokens]
    rfl

/-! ## Nothing else is an ordered item -/

/-- A line that starts with another word has no ordered item in it. -/
theorem ne_orderedItem_of_line
    {token : Token}
    (lexed : AllLexed (token :: rest))
    (isText : token.kind = .text)
    (unmarked : ∀ digits, IsNumeral digits → token.text ∉ orderedMarkers digits)
    (member : .node kind children ∈ (Line.line token rest).value) :
    kind ≠ .orderedItem := by
  rintro rfl
  have visible : token.kind ≠ .newline := by simp [isText]
  have block : Line.Block (token :: rest) _ _ := Line.block_line visible
  generalize (Line.line token rest).value = elements at member block
  generalize (Line.line token rest).rest = left at block
  generalize same : token :: rest = tokens at block
  cases block with
  | marked marker =>
      simp only [List.mem_singleton, Element.node.injEq] at member
      obtain ⟨rfl, _⟩ := member
      cases marker with
      | orderedItem _ isMarked =>
          cases same
          obtain ⟨digits, isNumeral, isForm⟩ :=
            Line.isOrderedMarker_iff.mp isMarked
          exact unmarked digits isNumeral isForm
  | table => simp at member
  | codeBlock => simp at member
  | text _ derives taken =>
      subst same
      rcases List.mem_append.mp member with inContent | inEnding
      · cases (derives.isMember lexed _ inContent).isInline
      · cases taken with
        | taken => simp [Element.ofToken] at inEnding
        | missing => cases inEnding

/-- An ordered item starts with a marker and a blank. -/
theorem exists_marker_of_orderedItem
    {source : String}
    (member : .node .orderedItem children ∈ (parse source).subtrees) :
    ∃ digits marker blank others, IsNumeral digits ∧
      marker ∈ orderedMarkers digits ∧
      children = .leaf .orderedMarker marker :: .leaf .whitespace blank :: others := by
  obtain ⟨_, production⟩ := exists_production_of_mem_parse member
  obtain ⟨tokens, leaf, blank, middle, others, _, isMarker, isBlank, rfl⟩ :=
    production.exists_marker (show Kind.orderedItem.marker? = some _ from rfl)
  cases isMarker with
  | orderedItem isText isMarked =>
      obtain ⟨digits, isNumeral, isForm⟩ := Line.isOrderedMarker_iff.mp isMarked
      refine ⟨digits, _, blank.text, others, isNumeral, isForm, ?_⟩
      rw [Element.ofToken, isBlank]

end Markup
end NotePress
