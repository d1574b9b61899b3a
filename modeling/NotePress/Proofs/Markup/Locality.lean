import NotePress.Markup.Line
import NotePress.Proofs.Markup.Grammar
import NotePress.Proofs.Markup.LineBreaks

/-!
# What stands on a line is read off that line alone

The rules for elements within a line look ahead for closing delimiters, boxes and
braces, but never past the end of the line. Read off the tokens of the line
alone, an element is the same as in front of the line ending and all that comes
after it.
-/

namespace NotePress
namespace Markup

namespace Parsed

/-- The same result off a longer token list: what stands behind the shorter one
is left in addition. -/
structure Extended
    (more : List Token)
    (shorter : Parsed α bound)
    (longer : Parsed α larger) : Prop where
  value : longer.value = shorter.value
  last : longer.last = shorter.last
  rest : longer.rest = shorter.rest ++ more

namespace Extended

/-- A function of both results leaves one of them the extension of the other. -/
theorem map
    {shorter : Parsed α bound}
    {longer : Parsed α larger}
    (extended : Extended more shorter longer)
    (function : α → β) :
    Extended more (shorter.map function) (longer.map function) :=
  ⟨congrArg function extended.value, extended.last, extended.rest⟩

/-- The bounds on what is left do not matter. -/
theorem weaken
    {shorter : Parsed α bound}
    {longer : Parsed α larger}
    (extended : Extended more shorter longer)
    (boundLe : bound ≤ otherBound)
    (largerLe : larger ≤ otherLarger) :
    Extended more (shorter.weaken boundLe) (longer.weaken largerLe) :=
  ⟨extended.value, extended.last, extended.rest⟩

/-- Two longer results beside one another. -/
theorem beside
    {shorter : Parsed α bound}
    {middle : Parsed α larger}
    {longer : Parsed α largest}
    (toMiddle : Extended between shorter middle)
    (toLonger : Extended (between ++ more) shorter longer) :
    Extended more middle longer :=
  ⟨toLonger.value.trans toMiddle.value.symm,
    toLonger.last.trans toMiddle.last.symm,
    by rw [toLonger.rest, toMiddle.rest, List.append_assoc]⟩

end Extended

end Parsed

open Parsed (Extended)

/-! ## Small facts about options and runs -/

/-- Alternatives are related when their choices are, one by one. -/
theorem or_of_rel
    {related : α → β → Prop}
    (firstRelated : Option.Rel related first longerFirst)
    (secondRelated : Option.Rel related second longerSecond) :
    Option.Rel related (first.or second) (longerFirst.or longerSecond) := by
  cases firstRelated with
  | some values => exact .some values
  | none => exact secondRelated

/-- Options with related defaults give related values. -/
theorem getD_of_rel
    {related : α → β → Prop}
    (optionsRelated : Option.Rel related option longer)
    (othersRelated : related other longerOther) :
    related (option.getD other) (longer.getD longerOther) := by
  cases optionsRelated with
  | some values => exact values
  | none => exact othersRelated

theorem length_le_of_dropWhile
    {test : α → Bool}
    {list remaining : List α}
    (found : list.dropWhile test = remaining) :
    remaining.length ≤ list.length := by
  rw [← found]
  exact Lexer.length_dropWhile_le test list

/-! ## Tokens of one line -/

/-- Tokens of one line, without its ending. -/
def OnLine (tokens : List Token) : Prop :=
  ∀ token ∈ tokens, token.kind ≠ .newline

namespace OnLine

theorem of_cons
    (onLine : OnLine (first :: others)) :
    OnLine others :=
  fun token member => onLine token (List.mem_cons_of_mem first member)

/-- Tokens at the end of a line are on the line. -/
theorem of_suffix
    (onLine : OnLine tokens)
    (isSuffix : rest <:+ tokens) :
    OnLine rest :=
  fun token member => onLine token (isSuffix.subset member)

end OnLine

/-- What is read off the front of a list leaves the end of the list. -/
theorem Reads.suffix
    (read : Reads tokens elements rest) :
    rest <:+ tokens := by
  induction read with
  | done tokens => exact List.suffix_refl tokens
  | leaf kind taken _ _ _ inductionHypothesis =>
      exact inductionHypothesis.trans (List.suffix_append taken _)
  | node kind _ _ _ children others => exact others.trans children

/-- What a rule leaves is an end of the tokens after the first, when it leaves no more
than these. -/
theorem Reads.suffix_of_length_le
    (read : Reads (first :: others) elements rest)
    (shorter : rest.length ≤ others.length) :
    rest <:+ others := by
  rcases List.suffix_cons_iff.mp read.suffix with whole | isSuffix
  · rw [whole, List.length_cons] at shorter
    omega
  · exact isSuffix

namespace Line

/-- A line ends at a line ending, or where nothing is left. -/
theorem eq_nil_or_newline_of_atLineEnd
    (ended : atLineEnd tokens = true) :
    tokens = [] ∨
      ∃ ending others, tokens = ending :: others ∧ ending.kind = .newline := by
  cases tokens with
  | nil => exact .inl rfl
  | cons ending others => exact .inr ⟨ending, others, rfl, eq_of_beq ended⟩

/-- A run of tokens of the line ends with the line at the latest. -/
theorem takeWhile_eq_nil_of_atLineEnd
    (ended : atLineEnd tokens = true)
    (test : Token → Bool)
    (fails : ∀ token : Token, token.kind = .newline → test token = false) :
    tokens.takeWhile test = [] := by
  rcases eq_nil_or_newline_of_atLineEnd ended with rfl | ⟨ending, others, rfl, newline⟩
  · rfl
  · rw [List.takeWhile_cons, fails ending newline]
    rfl

end Line

namespace Inline

section

variable {rest more : List Token}

/-- Plain text is the same in front of more tokens. -/
theorem plain_extended (token : Token) :
    Extended more (plain token rest) (plain token (rest ++ more)) :=
  ⟨rfl, rfl, rfl⟩

theorem mention_extended (token : Token) :
    Extended more (mention token rest) (mention token (rest ++ more)) :=
  ⟨rfl, rfl, rfl⟩

/-- A text box is decided by the token after its blanks. -/
theorem textbox_of_dropWhile
    (token : Token)
    (found : rest.dropWhile (·.kind == .underscore) = closing :: after) :
    textbox? token rest =
      if !(rest.takeWhile (·.kind == .underscore)).isEmpty &&
          closing.kind == .rightBracket then
        some ⟨.node .textbox
            (.ofDelimiter token ::
              (rest.takeWhile (·.kind == .underscore)).map .ofDelimiter ++
              [.ofDelimiter closing]),
          closing.kind, after,
          (Nat.le_succ _).trans (length_le_of_dropWhile found)⟩
      else
        none := by
  unfold textbox?
  simp only
  split
  · rename_i equal
    rw [found] at equal
    cases equal
    rfl
  · rename_i equal
    rw [found] at equal
    cases equal

/-- Blanks up to the end of the tokens are no text box. -/
theorem textbox_of_dropWhile_nil
    (token : Token)
    (found : rest.dropWhile (·.kind == .underscore) = []) :
    textbox? token rest = none := by
  unfold textbox?
  simp only
  split
  · rename_i equal
    rw [found] at equal
    cases equal
  · rfl

/-- A parameter list is decided by the token after its parameters. -/
theorem parameters_of_dropWhile
    (opening : Token)
    (found : rest.dropWhile isParameter = closing :: after) :
    parameters opening rest =
      if closing.kind = .rightBrace then
        ⟨.node .parameters
            (.ofDelimiter opening ::
              (rest.takeWhile isParameter).map .ofToken ++
              [.ofDelimiter closing]),
          closing.kind, after,
          (Nat.le_succ _).trans (length_le_of_dropWhile found)⟩
      else
        ⟨.node .parameters
            (.ofDelimiter opening ::
              (rest.takeWhile isParameter).map .ofToken),
          ((rest.takeWhile isParameter).getLast?.getD opening).kind,
          closing :: after,
          length_le_of_dropWhile found⟩ := by
  unfold parameters
  simp only
  split
  · rename_i equal
    rw [found] at equal
    cases equal
    rfl
  · rename_i equal
    rw [found] at equal
    cases equal

/-- A parameter list goes on to the end of the tokens when nothing else is there. -/
theorem parameters_of_dropWhile_nil
    (opening : Token)
    (found : rest.dropWhile isParameter = []) :
    parameters opening rest =
      ⟨.node .parameters
          (.ofDelimiter opening :: (rest.takeWhile isParameter).map .ofToken),
        ((rest.takeWhile isParameter).getLast?.getD opening).kind, [],
        Nat.zero_le _⟩ := by
  unfold parameters
  simp only
  split
  · rename_i equal
    rw [found] at equal
    cases equal
  · rfl

variable (ended : Line.atLineEnd more = true)

include ended

/-- Whether something visible comes next is seen on the line. -/
theorem startsVisibly_append :
    startsVisibly (rest ++ more) = startsVisibly rest := by
  cases rest with
  | cons first others => rfl
  | nil =>
      rcases Line.eq_nil_or_newline_of_atLineEnd ended with
        rfl | ⟨ending, others, rfl, newline⟩
      · rfl
      · simp [startsVisibly, newline]

/-- A checkbox is found on its line. -/
theorem checkbox_extended (token : Token) :
    Option.Rel (Extended more) (checkbox? token rest)
      (checkbox? token (rest ++ more)) := by
  have noTick : ∀ ending : Token, ending.kind = .newline →
      isTick ending = false := by
    intro ending newline
    simp [isTick, newline]
  match rest with
  | tick :: closing :: after =>
      simp only [List.cons_append, checkbox?]
      split
      · exact .some ⟨rfl, rfl, rfl⟩
      · exact .none
  | [tick] =>
      rcases Line.eq_nil_or_newline_of_atLineEnd ended with
        rfl | ⟨ending, others, rfl, newline⟩
      · exact .none
      · simp [checkbox?, newline]
  | [] =>
      rcases Line.eq_nil_or_newline_of_atLineEnd ended with
        rfl | ⟨ending, others, rfl, newline⟩
      · exact .none
      · cases others with
        | nil => exact .none
        | cons second others =>
            simp [checkbox?, noTick ending newline]

/-- A text box is found on its line. -/
theorem textbox_extended (token : Token) :
    Option.Rel (Extended more) (textbox? token rest)
      (textbox? token (rest ++ more)) := by
  have nothing := Line.takeWhile_eq_nil_of_atLineEnd ended
    (·.kind == .underscore) (by intro token newline; rw [newline]; rfl)
  have remains := dropWhile_append_of_eq_nil rest nothing
  cases found : rest.dropWhile (·.kind == .underscore) with
  | cons closing after =>
      rw [found, List.cons_append] at remains
      rw [textbox_of_dropWhile token found, textbox_of_dropWhile token remains,
        takeWhile_append_of_eq_nil rest nothing]
      split
      · exact .some ⟨rfl, rfl, rfl⟩
      · exact .none
  | nil =>
      rw [textbox_of_dropWhile_nil token found]
      rw [found, List.nil_append] at remains
      rcases Line.eq_nil_or_newline_of_atLineEnd ended with
        rfl | ⟨ending, others, rfl, newline⟩
      · rw [textbox_of_dropWhile_nil token remains]
        exact .none
      · rw [textbox_of_dropWhile token remains, if_neg (by simp [newline])]
        exact .none

/-- What an opening bracket starts is decided on its line. -/
theorem box_extended (token : Token) :
    Extended more (box token rest) (box token (rest ++ more)) :=
  getD_of_rel
    (or_of_rel (checkbox_extended ended token) (textbox_extended ended token))
    (plain_extended token)

/-- A parameter list ends on its line. -/
theorem parameters_extended (opening : Token) :
    Extended more (parameters opening rest)
      (parameters opening (rest ++ more)) := by
  have nothing := Line.takeWhile_eq_nil_of_atLineEnd ended isParameter
    (by intro token newline; simp [isParameter, newline])
  have remains := dropWhile_append_of_eq_nil rest nothing
  cases found : rest.dropWhile isParameter with
  | cons closing after =>
      rw [found, List.cons_append] at remains
      rw [parameters_of_dropWhile opening found,
        parameters_of_dropWhile opening remains]
      simp only [takeWhile_append_of_eq_nil rest nothing]
      split
      · exact ⟨rfl, rfl, rfl⟩
      · exact ⟨rfl, rfl, rfl⟩
  | nil =>
      rw [parameters_of_dropWhile_nil opening found]
      rw [found, List.nil_append] at remains
      rcases Line.eq_nil_or_newline_of_atLineEnd ended with
        rfl | ⟨ending, others, rfl, newline⟩
      · rw [parameters_of_dropWhile_nil opening remains]
        simp only [takeWhile_append_of_eq_nil rest nothing]
        exact ⟨rfl, rfl, rfl⟩
      · rw [parameters_of_dropWhile opening remains,
          if_neg (by rw [newline]; decide)]
        simp only [takeWhile_append_of_eq_nil rest nothing]
        exact ⟨rfl, rfl, rfl⟩

/-- A hashtag with its parameters ends on its line. -/
theorem hashtag_extended (token : Token) :
    Extended more (hashtag token rest) (hashtag token (rest ++ more)) := by
  cases rest with
  | cons opening tokens =>
      simp only [List.cons_append, hashtag]
      split
      · exact ((parameters_extended ended opening).map _).weaken _ _
      · exact ⟨rfl, rfl, rfl⟩
  | nil =>
      rcases Line.eq_nil_or_newline_of_atLineEnd ended with
        rfl | ⟨ending, others, rfl, newline⟩
      · exact ⟨rfl, rfl, rfl⟩
      · simp only [List.nil_append, hashtag, newline, reduceCtorEq, if_false]
        exact ⟨rfl, rfl, rfl⟩

variable (onLine : OnLine rest)

include onLine

/-- A closing delimiter is looked for on the line. -/
theorem splitAtClosing_extended (mark : Kind) :
    splitAtClosing mark (rest ++ more) =
      (splitAtClosing mark rest).map fun (inside, closing, after) =>
        (inside, closing, after ++ more) := by
  induction rest with
  | nil =>
      rcases Line.eq_nil_or_newline_of_atLineEnd ended with
        rfl | ⟨ending, others, rfl, newline⟩
      · rfl
      · simp [splitAtClosing, newline]
  | cons first others inductionHypothesis =>
      have here : first.kind ≠ .newline := onLine first List.mem_cons_self
      rw [List.cons_append, splitAtClosing, splitAtClosing, if_neg here,
        if_neg here, inductionHypothesis onLine.of_cons]
      split
      · rfl
      · cases splitAtClosing mark others <;> rfl

/-- Whether a delimiter opens a span is decided on its line. -/
theorem opens_append (previous mark : Kind) :
    opens previous mark (rest ++ more) = opens previous mark rest := by
  rw [opens, opens, startsVisibly_append ended,
    splitAtClosing_extended ended onLine, Option.isSome_map]

/-- Verbatim content ends on its line. -/
theorem rawSpan_extended
    (kind : Kind)
    (token : Token) :
    Extended more (rawSpan kind token rest)
      (rawSpan kind token (rest ++ more)) := by
  have divided := splitAtClosing_extended ended onLine token.kind
  unfold rawSpan
  split
  · rename_i found
    rw [found] at divided
    split
    · exact plain_extended token
    · rename_i longerFound
      rw [divided] at longerFound
      cases longerFound
  · rename_i inside closing after found
    rw [found] at divided
    split
    · rename_i longerFound
      rw [divided] at longerFound
      cases longerFound
    · rename_i longerFound
      rw [divided] at longerFound
      cases longerFound
      exact ⟨rfl, rfl, rfl⟩

/-- Every rule that a token alone selects stays on its line. -/
theorem simple_extended (token : Token) :
    Extended more (simple token rest) (simple token (rest ++ more)) := by
  unfold simple
  split
  · exact rawSpan_extended ended onLine .literal token
  · exact rawSpan_extended ended onLine .quotation token
  · exact box_extended ended token
  · exact hashtag_extended ended token
  · exact mention_extended token
  · exact plain_extended token

end

/-- A styled span that a line ending does not close ends there. -/
theorem closeStyled_extended
    (style : Kind)
    (token : Token)
    (visible : token.kind ≠ .newline)
    (ended : Line.atLineEnd more = true)
    {shorter : Parsed (List Element) bound}
    {longer : Parsed (List Element) larger}
    (extended : Extended more shorter longer) :
    Extended more (closeStyled style token shorter)
      (closeStyled style token longer) := by
  obtain ⟨content, last, rest, bounded⟩ := shorter
  obtain ⟨longerContent, longerLast, longerRest, longerBounded⟩ := longer
  obtain ⟨sameValue, sameLast, sameRest⟩ := extended
  simp only at sameValue sameLast sameRest
  subst sameValue sameLast sameRest
  cases rest with
  | cons closing after =>
      simp only [List.cons_append, closeStyled]
      split
      · exact ⟨rfl, rfl, rfl⟩
      · exact ⟨rfl, rfl, rfl⟩
  | nil =>
      rcases Line.eq_nil_or_newline_of_atLineEnd ended with
        rfl | ⟨ending, others, rfl, newline⟩
      · exact ⟨rfl, rfl, rfl⟩
      · have open_ : ending.kind ≠ token.kind := by
          rw [newline]
          exact visible.symm
        simp only [List.nil_append, closeStyled, if_neg open_]
        exact ⟨rfl, rfl, rfl⟩

/-- A delimiter of a style is no line ending. -/
theorem ne_newline_of_style
    {kind style : Kind}
    (found : kind.style? = some style) :
    kind ≠ .newline := by
  rintro rfl
  cases found

/-- What an element leaves of a line is on that line. -/
theorem onLine_rest_element
    (previous : Kind)
    (token : Token)
    (onLine : OnLine rest) :
    OnLine (element previous token rest).rest :=
  onLine.of_suffix
    ((reads_element token rest previous).suffix_of_length_le
      (Parsed.bounded _))

/-- Both rules that call each other stay on the line. The induction follows the
calls on the shorter list; the longer one makes the same calls. -/
theorem element_and_elements_extended (ended : Line.atLineEnd more = true) :
    (∀ previous token rest, OnLine rest →
      Extended more (element previous token rest)
        (element previous token (rest ++ more))) ∧
    ∀ stops previous tokens, OnLine tokens →
      Extended more (elements stops previous tokens)
        (elements stops previous (tokens ++ more)) := by
  apply element.mutual_induct
  case case1 =>
    intro previous token rest style found opened inside onLine
    rw [element, element]
    split
    · rename_i otherStyle otherFound
      rw [opens_append ended onLine, if_pos opened, if_pos opened]
      exact closeStyled_extended otherStyle token
        (ne_newline_of_style otherFound) ended (inside onLine)
    · exact simple_extended ended onLine token
  case case2 =>
    intro previous token rest style found closed onLine
    rw [element, element]
    split
    · rw [opens_append ended onLine, if_neg closed, if_neg closed]
      exact plain_extended token
    · exact simple_extended ended onLine token
  case case3 =>
    intro previous token rest notStyled onLine
    rw [element, element]
    split
    · rename_i style found
      rw [notStyled] at found
      cases found
    · exact simple_extended ended onLine token
  case case4 =>
    intro stops previous onLine
    rcases Line.eq_nil_or_newline_of_atLineEnd ended with
      rfl | ⟨ending, others, rfl, newline⟩
    · exact ⟨rfl, rfl, by rw [List.append_nil, List.append_nil]⟩
    · rw [List.nil_append, elements, elements,
        if_pos (by rw [newline]; rfl)]
      exact ⟨rfl, rfl, rfl⟩
  case case5 =>
    intro stops previous token rest stopped onLine
    rw [List.cons_append, elements, elements, if_pos stopped, if_pos stopped]
    exact ⟨rfl, rfl, rfl⟩
  case case6 =>
    intro stops previous token rest goesOn first inFirst inOthers _ onLine
    have firstExtended := inFirst onLine.of_cons
    have othersExtended :
        Extended more (elements stops first.last first.rest)
          (elements stops (element previous token (rest ++ more)).last
            (element previous token (rest ++ more)).rest) := by
      rw [firstExtended.last, firstExtended.rest]
      exact inOthers (onLine_rest_element previous token onLine.of_cons)
    rw [List.cons_append, elements, elements, if_neg goesOn, if_neg goesOn]
    exact ⟨congrArg₂ List.cons firstExtended.value othersExtended.value,
      othersExtended.last, othersExtended.rest⟩

end Inline

/-! ## The line of a token list -/

/-- The tokens up to the first line ending. -/
def currentLine (tokens : List Token) : List Token :=
  tokens.takeWhile (·.kind != .newline)

/-- The first line ending and the tokens after it. -/
def afterLine (tokens : List Token) : List Token :=
  tokens.dropWhile (·.kind != .newline)

/-- The tokens are those of the first line and what comes after them. -/
theorem currentLine_append_afterLine (tokens : List Token) :
    currentLine tokens ++ afterLine tokens = tokens :=
  List.takeWhile_append_dropWhile

/-- The first line has no line ending among its tokens. -/
theorem onLine_currentLine (tokens : List Token) :
    OnLine (currentLine tokens) := by
  intro token member
  simpa using List.mem_takeWhile_imp member

/-- After the first line there is a line ending or nothing. -/
theorem atLineEnd_afterLine (tokens : List Token) :
    Line.atLineEnd (afterLine tokens) = true := by
  cases remains : afterLine tokens with
  | nil => rfl
  | cons ending others =>
      have stopped := List.head?_dropWhile_not (·.kind != .newline) tokens
      rw [← afterLine, remains] at stopped
      simpa [Line.atLineEnd] using stopped

/-- Tokens that have a line ending among them. -/
def HasLineEnd (tokens : List Token) : Prop :=
  ∃ ending ∈ tokens, ending.kind = .newline

namespace HasLineEnd

theorem ne_nil
    (hasEnd : HasLineEnd tokens) :
    tokens ≠ [] := by
  rintro rfl
  obtain ⟨ending, member, _⟩ := hasEnd
  cases member

/-- A test that line endings fail is failed by some token. -/
theorem exists_not
    (hasEnd : HasLineEnd tokens)
    (test : Token → Bool)
    (fails : ∀ token : Token, token.kind = .newline → test token = false) :
    ∃ token ∈ tokens, ¬test token := by
  obtain ⟨ending, member, newline⟩ := hasEnd
  exact ⟨ending, member, by rw [fails ending newline]; decide⟩

/-- What comes after a line ending does not change the first line. -/
theorem currentLine_append
    (hasEnd : HasLineEnd tokens)
    (more : List Token) :
    currentLine (tokens ++ more) = currentLine tokens :=
  takeWhile_append_of_mem
    (hasEnd.exists_not _ fun token newline => by simp [newline]) more

/-- After the first line there is what was there, and then what comes after all. -/
theorem afterLine_append
    (hasEnd : HasLineEnd tokens)
    (more : List Token) :
    afterLine (tokens ++ more) = afterLine tokens ++ more :=
  dropWhile_append_of_mem
    (hasEnd.exists_not _ fun token newline => by simp [newline]) more

/-- A line ending comes after the first line. -/
theorem afterLine_ne_nil
    (hasEnd : HasLineEnd tokens) :
    afterLine tokens ≠ [] := by
  intro nothing
  obtain ⟨ending, member, newline⟩ := hasEnd
  have visible := List.dropWhile_eq_nil_iff.mp nothing ending member
  simp [newline] at visible

/-- The first line ending is still there behind tokens left of its line. -/
theorem append_afterLine
    (hasEnd : HasLineEnd tokens)
    (front : List Token) :
    HasLineEnd (front ++ afterLine tokens) := by
  rcases Line.eq_nil_or_newline_of_atLineEnd (atLineEnd_afterLine tokens) with
    nothing | ⟨ending, others, after, newline⟩
  · exact absurd nothing hasEnd.afterLine_ne_nil
  · rw [after]
    exact ⟨ending, List.mem_append_right front List.mem_cons_self, newline⟩

end HasLineEnd

namespace Inline

/-- An element is read off its line. -/
theorem element_of_currentLine
    (previous : Kind)
    (token : Token)
    (rest : List Token) :
    Extended (afterLine rest) (element previous token (currentLine rest))
      (element previous token rest) := by
  have extended := (element_and_elements_extended
    (atLineEnd_afterLine rest)).1 previous token _ (onLine_currentLine rest)
  rwa [currentLine_append_afterLine] at extended

/-- Elements are read off their line. -/
theorem elements_of_currentLine
    (stops : Kind → Bool)
    (previous : Kind)
    (tokens : List Token) :
    Extended (afterLine tokens) (elements stops previous (currentLine tokens))
      (elements stops previous tokens) := by
  have extended := (element_and_elements_extended
    (atLineEnd_afterLine tokens)).2 stops previous _
      (onLine_currentLine tokens)
  rwa [currentLine_append_afterLine] at extended

variable (hasEnd : HasLineEnd tokens)

include hasEnd

/-- Lines after the current one change no element on it. -/
theorem element_append
    (previous : Kind)
    (token : Token)
    (more : List Token) :
    Extended more (element previous token tokens)
      (element previous token (tokens ++ more)) := by
  have longer := element_of_currentLine previous token (tokens ++ more)
  rw [hasEnd.currentLine_append, hasEnd.afterLine_append] at longer
  exact (element_of_currentLine previous token tokens).beside longer

/-- Lines after the current one change no elements on it. -/
theorem elements_append
    (stops : Kind → Bool)
    (previous : Kind)
    (more : List Token) :
    Extended more (elements stops previous tokens)
      (elements stops previous (tokens ++ more)) := by
  have longer := elements_of_currentLine stops previous (tokens ++ more)
  rw [hasEnd.currentLine_append, hasEnd.afterLine_append] at longer
  exact (elements_of_currentLine stops previous tokens).beside longer

/-- No element takes the line ending. -/
theorem hasLineEnd_rest_element
    (previous : Kind)
    (token : Token) :
    HasLineEnd (element previous token tokens).rest := by
  rw [(element_of_currentLine previous token tokens).rest]
  exact hasEnd.append_afterLine _

/-- Elements up to some token never take the line ending. -/
theorem hasLineEnd_rest_elements
    (stops : Kind → Bool)
    (previous : Kind) :
    HasLineEnd (elements stops previous tokens).rest := by
  rw [(elements_of_currentLine stops previous tokens).rest]
  exact hasEnd.append_afterLine _

end Inline

end Markup
end NotePress
