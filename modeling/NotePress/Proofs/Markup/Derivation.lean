import NotePress.Proofs.Markup.Shape

/-!
# Derivations of the elements of a line

The rules for elements within a line as a relation between tokens and what is
read off them, one constructor for each thing that a rule can make, with all that
the rule looks at. Everything that is read has a derivation (`derives_elements`),
and what has a derivation is what is read (`Derives.isResult`).
-/

namespace NotePress
namespace Markup

/-- What a rule of the grammar made of some tokens. -/
structure Parsed.IsResult
    (parsed : Parsed α bound)
    (value : α)
    (last : Kind)
    (rest : List Token) : Prop where
  value : parsed.value = value
  last : parsed.last = last
  rest : parsed.rest = rest

/-! ## Elements within a line -/

namespace Inline

/-- The kinds of tokens that may start more than themselves, the styling
delimiters left out. -/
def starters : List Kind :=
  [.backtick, .quote, .leftBracket, .hashtagName, .mentionName]

/-- The delimiters of raw spans with the kinds of the spans. -/
inductive IsRaw : Kind → Kind → Prop
  | literal : IsRaw .backtick .literal
  | quotation : IsRaw .quote .quotation

/-- An element that is no styling delimiter and no styled span, read off a token
and the tokens after it: the element, the kind of its last token and what is
left. -/
inductive Atom : Token → List Token → Element → Kind → List Token → Prop
  | bare :
      token.kind ∉ starters →
      Atom token rest (.ofToken token) token.kind rest
  | unmatched :
      IsRaw token.kind kind →
      splitAtClosing token.kind rest = none →
      Atom token rest (.ofToken token) token.kind rest
  | bracket :
      token.kind = .leftBracket →
      checkbox? token rest = none →
      textbox? token rest = none →
      Atom token rest (.ofToken token) token.kind rest
  | span :
      IsRaw token.kind kind →
      splitAtClosing token.kind rest = some (inside, closing, after) →
      Atom token rest
        (.node kind
          (.ofDelimiter token :: inside.map .ofToken ++ [.ofDelimiter closing]))
        closing.kind after
  | checkbox :
      token.kind = .leftBracket →
      isTick tick = true →
      closing.kind = .rightBracket →
      Atom token (tick :: closing :: after)
        (.node .checkbox
          [.ofDelimiter token, .ofToken tick, .ofDelimiter closing])
        closing.kind after
  | textbox :
      token.kind = .leftBracket →
      blanks ≠ [] →
      (∀ blank ∈ blanks, blank.kind = .underscore) →
      closing.kind = .rightBracket →
      Atom token (blanks ++ closing :: after)
        (.node .textbox
          (.ofDelimiter token :: blanks.map .ofDelimiter ++
            [.ofDelimiter closing]))
        closing.kind after
  | tag :
      token.kind = .hashtagName →
      Line.startsWith .leftBrace rest = false →
      Atom token rest (.node .hashtag [.ofToken token]) token.kind rest
  | call :
      token.kind = .hashtagName →
      opening.kind = .leftBrace →
      (∀ part ∈ inside, isParameter part = true) →
      closing.kind = .rightBrace →
      Atom token (opening :: inside ++ closing :: after)
        (.node .hashtag
          [.ofToken token,
            .node .parameters
              (.ofDelimiter opening :: inside.map .ofToken ++
                [.ofDelimiter closing])])
        closing.kind after
  | openCall :
      token.kind = .hashtagName →
      opening.kind = .leftBrace →
      (∀ part ∈ inside, isParameter part = true) →
      Line.atLineEnd after = true →
      Atom token (opening :: inside ++ after)
        (.node .hashtag
          [.ofToken token,
            .node .parameters (.ofDelimiter opening :: inside.map .ofToken)])
        (inside.getLast?.getD opening).kind after
  | mention :
      token.kind = .mentionName →
      Atom token rest (.node .mention [.ofToken token]) token.kind rest

/-- Whether the elements of a line stop before some tokens: at the end of the
line or at a token whose kind passes a test. -/
def stopsAt (stops : Kind → Bool) : List Token → Bool
  | [] => true
  | first :: _ => first.kind == .newline || stops first.kind

/-- Elements up to the end of the line, or up to a token whose kind passes a test,
that follow a token of a given kind: the elements, the kind of the last token
before what is left, and what is left. -/
inductive Derives :
    (Kind → Bool) → Kind → List Token → List Element → Kind → List Token → Prop
  | done :
      stopsAt stops tokens = true →
      Derives stops previous tokens [] previous tokens
  | atom :
      stopsAt stops (token :: rest) = false →
      token.kind.style? = none →
      Atom token rest first between middle →
      Derives stops between middle others last after →
      Derives stops previous (token :: rest) (first :: others) last after
  | mark :
      stopsAt stops (token :: rest) = false →
      token.kind.style? = some style →
      opens previous token.kind rest = false →
      Derives stops token.kind rest others last after →
      Derives stops previous (token :: rest) (.ofToken token :: others) last
        after
  | closed :
      stopsAt stops (token :: rest) = false →
      token.kind.style? = some style →
      opens previous token.kind rest = true →
      Derives (· == token.kind) token.kind rest content between
        (closing :: middle) →
      closing.kind = token.kind →
      Derives stops closing.kind middle others last after →
      Derives stops previous (token :: rest)
        (.node style
          (.ofDelimiter token :: content ++ [.ofDelimiter closing]) :: others)
        last after
  | unclosed :
      stopsAt stops (token :: rest) = false →
      token.kind.style? = some style →
      opens previous token.kind rest = true →
      Derives (· == token.kind) token.kind rest content last after →
      Line.atLineEnd after = true →
      Derives stops previous (token :: rest)
        [.node style (.ofDelimiter token :: content)] last after

/-! ### Every result has a derivation -/

section

variable (token : Token) (rest : List Token)

/-- Verbatim content that is read is an atom. -/
theorem atom_rawSpan
    {kind : Kind}
    (isRaw : IsRaw token.kind kind) :
    Atom token rest (rawSpan kind token rest).value
      (rawSpan kind token rest).last (rawSpan kind token rest).rest := by
  unfold rawSpan
  split
  · rename_i missing
    exact .unmatched isRaw missing
  · rename_i found
    exact .span isRaw found

/-- A checkbox is a bracket, a tick and a bracket. -/
theorem eq_of_checkbox
    {parsed : Parsed Element rest.length}
    (found : checkbox? token rest = some parsed) :
    ∃ tick closing, rest = tick :: closing :: parsed.rest ∧
      isTick tick = true ∧ closing.kind = .rightBracket ∧
      parsed.last = closing.kind ∧
      parsed.value = .node .checkbox
        [.ofDelimiter token, .ofToken tick, .ofDelimiter closing] := by
  unfold checkbox? at found
  split at found
  · rename_i tick closing after
    split at found
    · rename_i ticked
      simp only [Bool.and_eq_true, beq_iff_eq] at ticked
      cases found
      exact ⟨tick, closing, rfl, ticked.1, ticked.2, rfl, rfl⟩
    · cases found
  · cases found

/-- A text box is a bracket, underscores and a bracket. -/
theorem eq_of_textbox
    {parsed : Parsed Element rest.length}
    (found : textbox? token rest = some parsed) :
    ∃ blanks closing, rest = blanks ++ closing :: parsed.rest ∧
      blanks ≠ [] ∧ (∀ blank ∈ blanks, blank.kind = .underscore) ∧
      closing.kind = .rightBracket ∧ parsed.last = closing.kind ∧
      parsed.value = .node .textbox
        (.ofDelimiter token :: blanks.map .ofDelimiter ++
          [.ofDelimiter closing]) := by
  unfold textbox? at found
  simp only at found
  split at found
  · rename_i closing after remains
    split at found
    · rename_i boxed
      simp only [Bool.and_eq_true, Bool.not_eq_true', beq_iff_eq] at boxed
      cases found
      refine ⟨rest.takeWhile (·.kind == .underscore), closing, ?_, ?_, ?_,
        boxed.2, rfl, rfl⟩
      · rw [← remains, List.takeWhile_append_dropWhile]
      · exact List.isEmpty_eq_false_iff.mp boxed.1
      · intro blank member
        simpa using List.mem_takeWhile_imp member
    · cases found
  · cases found

/-- What an opening bracket starts is an atom. -/
theorem atom_box (isBracket : token.kind = .leftBracket) :
    Atom token rest (box token rest).value (box token rest).last
      (box token rest).rest := by
  unfold box
  cases ticked : checkbox? token rest with
  | some parsed =>
      obtain ⟨tick, closing, whole, isTick, isClosing, last, value⟩ :=
        eq_of_checkbox token rest ticked
      simp only [Option.some_or, Option.getD_some]
      rw [value, last]
      have ticked : Atom token (tick :: closing :: parsed.rest) _ _ parsed.rest :=
        .checkbox isBracket isTick isClosing
      rwa [← whole] at ticked
  | none =>
      cases blank : textbox? token rest with
      | some parsed =>
          obtain ⟨blanks, closing, whole, nonempty, isBlank, isClosing, last,
            value⟩ := eq_of_textbox token rest blank
          simp only [Option.none_or, Option.getD_some]
          rw [value, last]
          have blank : Atom token (blanks ++ closing :: parsed.rest) _ _
              parsed.rest :=
            .textbox isBracket nonempty isBlank isClosing
          rwa [← whole] at blank
      | none => exact .bracket isBracket ticked blank

/-- A hashtag that is read is an atom. -/
theorem atom_hashtag (isName : token.kind = .hashtagName) :
    Atom token rest (hashtag token rest).value (hashtag token rest).last
      (hashtag token rest).rest := by
  cases rest with
  | nil => exact .tag isName rfl
  | cons opening tokens =>
      unfold hashtag
      simp only
      split
      · rename_i isOpening
        have inside : ∀ part ∈ tokens.takeWhile isParameter,
            isParameter part = true := fun part => List.mem_takeWhile_imp
        have whole := List.takeWhile_append_dropWhile (p := isParameter)
          (l := tokens)
        simp only [Parsed.value_weaken, Parsed.value_map, Parsed.last_weaken,
          Parsed.last_map, Parsed.rest_weaken, Parsed.rest_map]
        cases remains : tokens.dropWhile isParameter with
        | nil =>
            rw [parameters_of_dropWhile_nil opening remains]
            rw [remains] at whole
            have call := Atom.openCall isName isOpening inside
              (show Line.atLineEnd [] = true from rfl)
            rwa [List.cons_append, whole] at call
        | cons closing after =>
            rw [parameters_of_dropWhile opening remains]
            rw [remains] at whole
            split
            · rename_i isClosing
              have call : Atom token
                  (opening :: tokens.takeWhile isParameter ++ closing :: after)
                  _ _ after :=
                .call isName isOpening inside isClosing
              rwa [List.cons_append, whole] at call
            · rename_i open_
              have stopped := List.head?_dropWhile_not isParameter tokens
              rw [remains] at stopped
              have ended : Line.atLineEnd (closing :: after) = true := by
                simpa [isParameter, open_, Line.atLineEnd] using stopped
              have call := Atom.openCall isName isOpening inside ended
              rwa [List.cons_append, whole] at call
      · rename_i other
        exact .tag isName (by simpa [Line.startsWith] using other)

/-- What a token alone selects is an atom. -/
theorem atom_simple :
    Atom token rest (simple token rest).value (simple token rest).last
      (simple token rest).rest := by
  unfold simple
  split
  · rename_i isBacktick
    exact atom_rawSpan token rest (isBacktick ▸ .literal)
  · rename_i isQuote
    exact atom_rawSpan token rest (isQuote ▸ .quotation)
  · exact atom_box token rest ‹_›
  · exact atom_hashtag token rest ‹_›
  · exact .mention ‹_›
  · exact .bare (by simp_all [starters])

end

/-- What elements up to some token leave starts with what stops them. -/
theorem stopsAt_rest_elements
    (stops : Kind → Bool)
    (previous : Kind)
    (tokens : List Token) :
    stopsAt stops (elements stops previous tokens).rest = true := by
  unfold elements
  split
  · rfl
  · rename_i token rest
    split
    · assumption
    · have shorter : (element previous token rest).rest.length <
          (token :: rest).length :=
        Nat.lt_succ_of_le (Parsed.bounded _)
      exact stopsAt_rest_elements stops _ _
termination_by tokens.length

/-- Nothing is read off tokens that stop the elements. -/
theorem Derives.eq_of_stopsAt
    (derives : Derives stops previous tokens content last rest)
    (stopped : stopsAt stops tokens = true) :
    content = [] ∧ last = previous ∧ rest = tokens := by
  cases derives with
  | done => exact ⟨rfl, rfl, rfl⟩
  | atom goesOn => simp [goesOn] at stopped
  | mark goesOn => simp [goesOn] at stopped
  | closed goesOn => simp [goesOn] at stopped
  | unclosed goesOn => simp [goesOn] at stopped

/-- Elements stop at the end of a line, whatever their test. -/
theorem stopsAt_of_atLineEnd
    (stops : Kind → Bool)
    (ended : Line.atLineEnd tokens = true) :
    stopsAt stops tokens = true := by
  cases tokens with
  | nil => rfl
  | cons first others =>
      rw [Line.atLineEnd] at ended
      simp [stopsAt, ended]

/-- The element that starts with a token, in front of elements that have a
derivation. -/
theorem derives_element
    {stops : Kind → Bool}
    {previous : Kind}
    {token : Token}
    {rest : List Token}
    (goesOn : stopsAt stops (token :: rest) = false)
    (inside : Derives (· == token.kind) token.kind rest
      (elements (· == token.kind) token.kind rest).value
      (elements (· == token.kind) token.kind rest).last
      (elements (· == token.kind) token.kind rest).rest)
    (after : Derives stops (element previous token rest).last
      (element previous token rest).rest others last left) :
    Derives stops previous (token :: rest)
      ((element previous token rest).value :: others) last left := by
  have stopped := stopsAt_rest_elements (· == token.kind) token.kind rest
  rw [element] at after ⊢
  split at after
  · rename_i style isStyle
    split at after
    · rename_i opened
      rw [if_pos opened]
      generalize elements (fun kind => kind == token.kind) token.kind rest =
        inner at inside stopped after ⊢
      obtain ⟨content, between, middle, bounded⟩ := inner
      cases middle with
      | nil =>
          obtain ⟨rfl, rfl, rfl⟩ := after.eq_of_stopsAt rfl
          exact .unclosed goesOn isStyle opened inside rfl
      | cons closing middle =>
          unfold closeStyled at after ⊢
          simp only at after ⊢
          by_cases isClosing : closing.kind = token.kind
          · rw [if_pos isClosing] at after ⊢
            exact .closed goesOn isStyle opened inside isClosing after
          · rw [if_neg isClosing] at after ⊢
            have ended : Line.atLineEnd (closing :: middle) = true := by
              simpa [stopsAt, isClosing, Line.atLineEnd] using stopped
            obtain ⟨rfl, rfl, rfl⟩ :=
              after.eq_of_stopsAt (stopsAt_of_atLineEnd stops ended)
            exact .unclosed goesOn isStyle opened inside ended
    · rename_i closed
      rw [if_neg closed]
      exact .mark goesOn isStyle (by simpa using closed) after
  · rename_i notStyle
    exact .atom goesOn notStyle (atom_simple token rest) after

/-- Elements up to some token have a derivation. -/
theorem derives_elements
    (stops : Kind → Bool)
    (previous : Kind)
    (tokens : List Token) :
    Derives stops previous tokens (elements stops previous tokens).value
      (elements stops previous tokens).last
      (elements stops previous tokens).rest := by
  match tokens with
  | [] =>
      rw [elements]
      exact .done rfl
  | token :: rest =>
      by_cases stopped : (token.kind == .newline || stops token.kind) = true
      · rw [elements, if_pos stopped]
        exact .done stopped
      · have shorter : (element previous token rest).rest.length <
            (token :: rest).length :=
          Nat.lt_succ_of_le (Parsed.bounded _)
        rw [elements, if_neg stopped]
        exact derives_element (by simpa [stopsAt] using stopped)
          (derives_elements _ token.kind rest) (derives_elements stops _ _)
termination_by tokens.length
decreasing_by
  · exact Nat.lt_succ_self _
  · exact shorter

/-! ### A derivation tells the result -/

section

variable {token : Token} {rest inside : List Token}

/-- A delimiter of verbatim content selects its rule. -/
theorem simple_of_isRaw
    {kind : Kind}
    (isRaw : IsRaw token.kind kind) :
    simple token rest = rawSpan kind token rest := by
  unfold simple
  cases same : token.kind <;> rw [same] at isRaw <;> cases isRaw <;> rfl

/-- A token that starts nothing is read as it is. -/
theorem simple_of_not_starter (other : token.kind ∉ starters) :
    simple token rest = plain token rest := by
  unfold simple
  split <;> simp_all [starters]

theorem isResult_plain :
    (plain token rest).IsResult (.ofToken token) token.kind rest :=
  ⟨rfl, rfl, rfl⟩

/-- A delimiter without a partner is read as it is. -/
theorem isResult_rawSpan_unmatched
    {kind : Kind}
    (missing : splitAtClosing token.kind rest = none) :
    (rawSpan kind token rest).IsResult (.ofToken token) token.kind rest := by
  unfold rawSpan
  split
  · exact isResult_plain
  · rename_i found
    rw [missing] at found
    cases found

/-- A delimiter with a partner is read with it and what is between them. -/
theorem isResult_rawSpan
    {kind : Kind}
    (divided : splitAtClosing token.kind rest = some (inside, closing, after)) :
    (rawSpan kind token rest).IsResult
      (.node kind
        (.ofDelimiter token :: inside.map .ofToken ++ [.ofDelimiter closing]))
      closing.kind after := by
  unfold rawSpan
  split
  · rename_i missing
    rw [missing] at divided
    cases divided
  · rename_i found
    rw [divided] at found
    cases found
    exact ⟨rfl, rfl, rfl⟩

/-- Tokens of a class in front of one outside it are the run of the class. -/
theorem takeWhile_of_all
    {test : Token → Bool}
    (all : ∀ part ∈ inside, test part = true)
    (stops : test closing = false)
    (after : List Token) :
    (inside ++ closing :: after).takeWhile test = inside ∧
      (inside ++ closing :: after).dropWhile test = closing :: after := by
  have nothing : (closing :: after).takeWhile test = [] := by
    rw [List.takeWhile_cons, stops]
    rfl
  rw [takeWhile_append_of_eq_nil _ nothing, dropWhile_append_of_eq_nil _ nothing]
  refine ⟨List.takeWhile_eq_self_iff.mpr all, ?_⟩
  rw [List.dropWhile_eq_nil_iff.mpr all, List.nil_append]

/-- The underscores of a textbox are the run of them after its bracket. -/
theorem takeWhile_underscores
    (blank : ∀ part ∈ inside, part.kind = .underscore)
    (isClosing : closing.kind = .rightBracket)
    (after : List Token) :
    (inside ++ closing :: after).takeWhile (·.kind == .underscore) = inside ∧
      (inside ++ closing :: after).dropWhile (·.kind == .underscore) =
        closing :: after :=
  takeWhile_of_all (by simpa using blank) (by simp [isClosing]) after

theorem kind_of_isTick (ticked : isTick tick = true) :
    tick.kind = .whitespace ∨ tick.kind = .text := by
  rw [isTick, Bool.or_eq_true, Bool.and_eq_true, beq_iff_eq, beq_iff_eq]
    at ticked
  exact ticked.imp_right And.left

/-- A bracket, underscores and a bracket are read as a text box. -/
theorem isResult_textbox
    (nonempty : inside ≠ [])
    (blank : ∀ part ∈ inside, part.kind = .underscore)
    (isClosing : closing.kind = .rightBracket) :
    (box token (inside ++ closing :: after)).IsResult
      (.node .textbox
        (.ofDelimiter token :: inside.map .ofDelimiter ++
          [.ofDelimiter closing]))
      closing.kind after := by
  obtain ⟨first, others, rfl⟩ := List.exists_cons_of_ne_nil nonempty
  have isBlank := blank first List.mem_cons_self
  obtain ⟨taken, left⟩ := takeWhile_underscores blank isClosing after
  have noTick : checkbox? token (first :: others ++ closing :: after) = none := by
    have unticked : isTick first = false := by simp [isTick, isBlank]
    cases others <;> simp [checkbox?, unticked]
  unfold box
  rw [noTick, textbox_of_dropWhile token left, taken, if_pos (by simp [isClosing])]
  exact ⟨by simp, rfl, rfl⟩

/-- A name with a closed parameter list is read as one hashtag. -/
theorem isResult_call
    (isOpening : opening.kind = .leftBrace)
    (all : ∀ part ∈ inside, isParameter part = true)
    (isClosing : closing.kind = .rightBrace) :
    (hashtag token (opening :: inside ++ closing :: after)).IsResult
      (.node .hashtag
        [.ofToken token,
          .node .parameters
            (.ofDelimiter opening :: inside.map .ofToken ++
              [.ofDelimiter closing])])
      closing.kind after := by
  obtain ⟨taken, left⟩ := takeWhile_of_all all
    (show isParameter closing = false by simp [isParameter, isClosing]) after
  rw [List.cons_append, hashtag, if_pos isOpening]
  rw [parameters_of_dropWhile opening left, if_pos isClosing]
  exact ⟨by simp [taken], rfl, rfl⟩

/-- A name with a parameter list that ends with its line is read as one hashtag. -/
theorem isResult_openCall
    (isOpening : opening.kind = .leftBrace)
    (all : ∀ part ∈ inside, isParameter part = true)
    (ended : Line.atLineEnd after = true) :
    (hashtag token (opening :: inside ++ after)).IsResult
      (.node .hashtag
        [.ofToken token,
          .node .parameters (.ofDelimiter opening :: inside.map .ofToken)])
      (inside.getLast?.getD opening).kind after := by
  rw [List.cons_append, hashtag, if_pos isOpening]
  rcases Line.eq_nil_or_newline_of_atLineEnd ended with
    rfl | ⟨ending, others, rfl, newline⟩
  · have taken := List.takeWhile_eq_self_iff.mpr all
    rw [List.append_nil,
      parameters_of_dropWhile_nil opening (List.dropWhile_eq_nil_iff.mpr all)]
    exact ⟨by simp [taken], by simp [taken], rfl⟩
  · obtain ⟨taken, left⟩ := takeWhile_of_all all
      (show isParameter ending = false by simp [isParameter, newline]) others
    rw [parameters_of_dropWhile opening left, if_neg (by rw [newline]; decide)]
    exact ⟨by simp [taken], by simp [taken], rfl⟩

/-- An element with a derivation is the element that is read. -/
theorem Atom.isResult
    (atom : Atom token rest first last after) :
    (simple token rest).IsResult first last after := by
  cases atom with
  | bare other =>
      rw [simple_of_not_starter other]
      exact isResult_plain
  | unmatched isRaw missing =>
      rw [simple_of_isRaw isRaw]
      exact isResult_rawSpan_unmatched missing
  | bracket isBracket unticked unboxed =>
      simp only [simple, isBracket, box, unticked, unboxed, Option.none_or,
        Option.getD_none]
      exact ⟨rfl, isBracket, rfl⟩
  | span isRaw divided =>
      rw [simple_of_isRaw isRaw]
      exact isResult_rawSpan divided
  | checkbox isBracket ticked isClosing =>
      simp only [simple, isBracket, box, checkbox?, ticked, isClosing]
      exact ⟨rfl, rfl, rfl⟩
  | textbox isBracket nonempty blank isClosing =>
      simp only [simple, isBracket]
      exact isResult_textbox nonempty blank isClosing
  | tag isName bare =>
      simp only [simple, isName]
      cases rest with
      | nil => exact ⟨rfl, isName, rfl⟩
      | cons opening tokens =>
          have other : opening.kind ≠ .leftBrace := by
            simpa [Line.startsWith] using bare
          rw [hashtag, if_neg other]
          exact ⟨rfl, isName, rfl⟩
  | call isName isOpening all isClosing =>
      simp only [simple, isName]
      exact isResult_call isOpening all isClosing
  | openCall isName isOpening all ended =>
      simp only [simple, isName]
      exact isResult_openCall isOpening all ended
  | mention isName =>
      simp only [simple, isName]
      exact ⟨rfl, isName, rfl⟩

/-- An atom is read as an element. -/
theorem isResult_element_atom
    (notStyle : token.kind.style? = none)
    (atom : Atom token rest first last after)
    (previous : Kind) :
    (element previous token rest).IsResult first last after := by
  rw [element]
  split
  · rename_i isStyle
    rw [notStyle] at isStyle
    cases isStyle
  · exact atom.isResult

/-- A styling delimiter that opens nothing is read as it is. -/
theorem isResult_element_mark
    (isStyle : token.kind.style? = some style)
    (closed : opens previous token.kind rest = false) :
    (element previous token rest).IsResult (.ofToken token) token.kind
      rest := by
  rw [element]
  split
  · rw [if_neg (by simp [closed])]
    exact isResult_plain
  · rename_i notStyle
    rw [notStyle] at isStyle
    cases isStyle

/-- An opening delimiter is read with the elements after it. -/
theorem element_of_opens
    (isStyle : token.kind.style? = some style)
    (opened : opens previous token.kind rest = true) :
    element previous token rest =
      closeStyled style token
        (elements (· == token.kind) token.kind rest) := by
  rw [element]
  split
  · rename_i otherStyle
    rw [isStyle] at otherStyle
    cases otherStyle
    rw [if_pos opened]
  · rename_i notStyle
    rw [notStyle] at isStyle
    cases isStyle

/-- A span whose delimiter comes next is closed by it. -/
theorem isResult_closeStyled
    {content : Parsed (List Element) bound}
    (inside : content.IsResult children between (closing :: middle))
    (isClosing : closing.kind = token.kind)
    (style : Kind) :
    (closeStyled style token content).IsResult
      (.node style (.ofDelimiter token :: children ++ [.ofDelimiter closing]))
      closing.kind middle := by
  obtain ⟨value, last, rest, bounded⟩ := content
  obtain ⟨sameValue, sameLast, sameRest⟩ := inside
  simp only at sameValue sameLast sameRest
  subst sameValue sameLast sameRest
  rw [closeStyled]
  simp only [isClosing, if_true]
  exact ⟨rfl, rfl, rfl⟩

/-- A span at the end of the line is not closed. -/
theorem isResult_closeStyled_unclosed
    {content : Parsed (List Element) bound}
    (inside : content.IsResult children last after)
    (visible : token.kind ≠ .newline)
    (ended : Line.atLineEnd after = true)
    (style : Kind) :
    (closeStyled style token content).IsResult
      (.node style (.ofDelimiter token :: children)) last after := by
  obtain ⟨value, last, rest, bounded⟩ := content
  obtain ⟨sameValue, sameLast, sameRest⟩ := inside
  simp only at sameValue sameLast sameRest
  subst sameValue sameLast sameRest
  rcases Line.eq_nil_or_newline_of_atLineEnd ended with
    rfl | ⟨ending, others, rfl, newline⟩
  · exact ⟨rfl, rfl, rfl⟩
  · have open_ : ending.kind ≠ token.kind := by
      rw [newline]
      exact visible.symm
    rw [closeStyled]
    simp only [if_neg open_]
    exact ⟨rfl, rfl, rfl⟩

/-- Where elements go on, one is read and then the others. -/
theorem isResult_elements_cons
    (goesOn : stopsAt stops (token :: rest) = false)
    (here : (element previous token rest).IsResult first between middle)
    (after : (elements stops between middle).IsResult others last left) :
    (elements stops previous (token :: rest)).IsResult (first :: others) last
      left := by
  obtain ⟨value, lastHere, restHere⟩ := here
  subst value lastHere restHere
  have visible : ¬(token.kind == .newline || stops token.kind) = true := by
    simpa [stopsAt] using goesOn
  rw [elements, if_neg visible]
  exact ⟨congrArg _ after.value, after.last, after.rest⟩

/-- Where elements stop, none are read. -/
theorem isResult_elements_of_stopsAt
    (stopped : stopsAt stops tokens = true)
    (previous : Kind) :
    (elements stops previous tokens).IsResult [] previous tokens := by
  cases tokens with
  | nil =>
      rw [elements]
      exact ⟨rfl, rfl, rfl⟩
  | cons token rest =>
      have ends : (token.kind == .newline || stops token.kind) = true := stopped
      rw [elements, if_pos ends]
      exact ⟨rfl, rfl, rfl⟩

end

/-- Elements with a derivation are the elements that are read. -/
theorem Derives.isResult
    (derives : Derives stops previous tokens content last rest) :
    (elements stops previous tokens).IsResult content last rest := by
  induction derives with
  | done stopped => exact isResult_elements_of_stopsAt stopped _
  | atom goesOn notStyle atom _ after =>
      exact isResult_elements_cons goesOn
        (isResult_element_atom notStyle atom _) after
  | mark goesOn isStyle closed _ after =>
      exact isResult_elements_cons goesOn
        (isResult_element_mark isStyle closed) after
  | closed goesOn isStyle opened _ isClosing _ inside after =>
      refine isResult_elements_cons goesOn ?_ after
      rw [element_of_opens isStyle opened]
      exact isResult_closeStyled inside isClosing _
  | unclosed goesOn isStyle opened _ ended inside =>
      refine isResult_elements_cons goesOn ?_
        (isResult_elements_of_stopsAt (stopsAt_of_atLineEnd _ ended) _)
      rw [element_of_opens isStyle opened]
      exact isResult_closeStyled_unclosed inside
        (ne_newline_of_style isStyle) ended _

end Inline

end Markup
end NotePress
