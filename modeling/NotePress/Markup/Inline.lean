import NotePress.Markup.Parsed

/-!
# Elements within a line

Styled spans, literals, quotations, boxes, directives and mentions. All of them
end at the latest where their line ends.

A styling delimiter opens a span only when the same delimiter occurs later on the
line, when it does not stand before a blank, and when it follows the start of a
line, a blank, an opening character or another styling delimiter; so `a/b` and
`well-known` stay plain. What opens nothing is kept as it is.
-/

namespace NotePress
namespace Markup
namespace Inline

/-- The tokens before the first one of a kind on the current line, that token,
and those after it. -/
def splitAtClosing (mark : Kind) :
    List Token → Option (List Token × Token × List Token)
  | [] => none
  | first :: others =>
      if first.kind = .newline then
        none
      else if first.kind = mark then
        some ([], first, others)
      else
        (splitAtClosing mark others).map fun (inside, closing, rest) =>
          (first :: inside, closing, rest)

/-- The tokens are divided at the first one of the kind, when the line goes on to
it. -/
theorem splitAtClosing_eq_some_iff
    {mark : Kind}
    {tokens inside rest : List Token}
    {closing : Token} :
    splitAtClosing mark tokens = some (inside, closing, rest) ↔
      tokens = inside ++ closing :: rest ∧ closing.kind = mark ∧
        mark ≠ .newline ∧
        ∀ token ∈ inside, token.kind ≠ .newline ∧ token.kind ≠ mark := by
  induction tokens generalizing inside with
  | nil => simp [splitAtClosing]
  | cons first others inductionHypothesis =>
      rw [splitAtClosing]
      split
      next newline =>
        refine ⟨nofun, fun ⟨whole, isClosing, visible, other⟩ => ?_⟩
        cases inside with
        | nil =>
            cases whole
            exact absurd (isClosing.symm.trans newline) visible
        | cons front inside =>
            cases whole
            exact absurd newline (other first List.mem_cons_self).1
      next here =>
        split
        next isMark =>
          constructor
          · rintro ⟨⟩
            exact ⟨rfl, isMark, isMark ▸ here, nofun⟩
          · rintro ⟨whole, _, _, other⟩
            cases inside with
            | nil =>
                cases whole
                rfl
            | cons front inside =>
                cases whole
                exact absurd isMark (other first List.mem_cons_self).2
        next isOther =>
          rw [Option.map_eq_some_iff]
          constructor
          · rintro ⟨⟨inside, _, _⟩, tail, ⟨⟩⟩
            obtain ⟨rfl, isClosing, visible, other⟩ :=
              inductionHypothesis.mp tail
            exact ⟨rfl, isClosing, visible,
              List.forall_mem_cons.mpr ⟨⟨here, isOther⟩, other⟩⟩
          · rintro ⟨whole, isClosing, visible, other⟩
            cases inside with
            | nil =>
                cases whole
                exact absurd isClosing isOther
            | cons front inside =>
                cases whole
                exact ⟨_, inductionHypothesis.mpr ⟨rfl, isClosing, visible,
                  (List.forall_mem_cons.mp other).2⟩, rfl⟩

theorem length_splitAtClosing
    {mark : Kind}
    {tokens inside rest : List Token}
    {closing : Token}
    (found : splitAtClosing mark tokens = some (inside, closing, rest)) :
    rest.length < tokens.length := by
  obtain ⟨rfl, _⟩ := splitAtClosing_eq_some_iff.mp found
  rw [List.length_append, List.length_cons]
  omega

/-- Whether a styling delimiter may open after a token of a given kind. -/
def opensAfter (mark : Kind) : Kind → Bool
  | .endOfInput | .whitespace | .newline | .quote | .leftBrace | .pipe
  | .leftBracket => true
  | .star => mark != .star
  | .slash => mark != .slash
  | .underscore => mark != .underscore
  | .dash => mark != .dash
  | _ => false

/-- Whether the next token is a visible one of the same line. -/
def startsVisibly : List Token → Bool
  | [] => false
  | first :: _ => first.kind != .whitespace && first.kind != .newline

/-- Whether a styling delimiter opens a span, given the kind of the token before
it and the tokens after it. -/
def opens
    (previous mark : Kind)
    (rest : List Token) : Bool :=
  opensAfter mark previous && startsVisibly rest &&
    (splitAtClosing mark rest).isSome

/-- A token kept as it is. -/
def plain
    (token : Token)
    (rest : List Token) : Parsed Element rest.length :=
  .leaving (.ofToken token) token.kind rest

/-- A span whose content is kept as it is, up to the next delimiter of the same
kind. -/
def rawSpan
    (kind : Kind)
    (token : Token)
    (rest : List Token) : Parsed Element rest.length :=
  match found : splitAtClosing token.kind rest with
  | none => plain token rest
  | some (inside, closing, after) =>
      ⟨.node kind
          (.ofDelimiter token :: inside.map .ofToken ++ [.ofDelimiter closing]),
        closing.kind, after, Nat.le_of_lt (length_splitAtClosing found)⟩

/-- Whether a token may stand between the brackets of a checkbox. -/
def isTick (token : Token) : Bool :=
  token.kind == .whitespace ||
    (token.kind == .text && (token.text == "x" || token.text == "X"))

/-- A checkbox, if the tokens after a left bracket make one. -/
def checkbox?
    (token : Token)
    (rest : List Token) : Option (Parsed Element rest.length) :=
  match rest with
  | tick :: closing :: after =>
      if isTick tick && closing.kind == .rightBracket then
        some ⟨.node .checkbox
            [.ofDelimiter token, .ofToken tick, .ofDelimiter closing],
          closing.kind, after, by simp only [List.length_cons]; omega⟩
      else
        none
  | _ => none

/-- A textbox, if the tokens after a left bracket make one. -/
def textbox?
    (token : Token)
    (rest : List Token) : Option (Parsed Element rest.length) :=
  let blanks := rest.takeWhile (·.kind == .underscore)
  match found : rest.dropWhile (·.kind == .underscore) with
  | closing :: after =>
      if !blanks.isEmpty && closing.kind == .rightBracket then
        some ⟨.node .textbox
            (.ofDelimiter token :: blanks.map .ofDelimiter ++
              [.ofDelimiter closing]),
          closing.kind, after, by
            have := Lexer.length_dropWhile_le (·.kind == .underscore) rest
            rw [found, List.length_cons] at this
            omega⟩
      else
        none
  | [] => none

/-- A checkbox, a textbox, or a plain left bracket. -/
def box
    (token : Token)
    (rest : List Token) : Parsed Element rest.length :=
  ((checkbox? token rest).or (textbox? token rest)).getD (plain token rest)

/-- Whether a token belongs to a parameter list. -/
def isParameter (token : Token) : Bool :=
  token.kind != .newline && token.kind != .rightBrace

/-- The parameter list after its left brace. Without a right brace on the line it
runs to the end of the line. -/
def parameters
    (opening : Token)
    (tokens : List Token) : Parsed Element tokens.length :=
  let inside := tokens.takeWhile isParameter
  match found : tokens.dropWhile isParameter with
  | closing :: after =>
      have bounded : (closing :: after).length ≤ tokens.length := by
        rw [← found]
        exact Lexer.length_dropWhile_le isParameter tokens
      if closing.kind = .rightBrace then
        ⟨.node .parameters
            (.ofDelimiter opening :: inside.map .ofToken ++
              [.ofDelimiter closing]),
          closing.kind, after, by
            simp only [List.length_cons] at bounded
            omega⟩
      else
        ⟨.node .parameters (.ofDelimiter opening :: inside.map .ofToken),
          (inside.getLast?.getD opening).kind, closing :: after, bounded⟩
  | [] =>
      ⟨.node .parameters (.ofDelimiter opening :: inside.map .ofToken),
        (inside.getLast?.getD opening).kind, [], Nat.zero_le _⟩

/-- A directive name with the parameter list after it, if there is one. -/
def hashtag
    (token : Token)
    (rest : List Token) : Parsed Element rest.length :=
  match rest with
  | opening :: tokens =>
      if opening.kind = .leftBrace then
        ((parameters opening tokens).map fun list =>
          .node .hashtag [.ofToken token, list]).weaken (by simp)
      else
        .leaving (.node .hashtag [.ofToken token]) token.kind (opening :: tokens)
  | [] => .atEnd (.node .hashtag [.ofToken token]) token.kind

/-- A mention of a person. -/
def mention
    (token : Token)
    (rest : List Token) : Parsed Element rest.length :=
  .leaving (.node .mention [.ofToken token]) token.kind rest

/-- An element that is not a styled span. -/
def simple
    (token : Token)
    (rest : List Token) : Parsed Element rest.length :=
  match token.kind with
  | .backtick => rawSpan .literal token rest
  | .quote => rawSpan .quotation token rest
  | .leftBracket => box token rest
  | .hashtagName => hashtag token rest
  | .mentionName => mention token rest
  | _ => plain token rest

/-- A styled span around its content. An element of the content may have
swallowed the closing delimiter; then the span ends with its line. -/
def closeStyled
    (style : Kind)
    (token : Token)
    (inner : Parsed (List Element) bound) : Parsed Element bound :=
  match inner with
  | ⟨content, last, rest, bounded⟩ =>
      match rest, bounded with
      | closing :: after, bounded =>
          if closing.kind = token.kind then
            ⟨.node style (.ofDelimiter token :: content ++
                [.ofDelimiter closing]),
              closing.kind, after, by
                simp only [List.length_cons] at bounded
                omega⟩
          else
            ⟨.node style (.ofDelimiter token :: content), last,
              closing :: after, bounded⟩
      | [], bounded =>
          ⟨.node style (.ofDelimiter token :: content), last, [], bounded⟩

mutual

/-- The element that starts with a token, given the kind of the token before it
and the tokens after it. -/
def element
    (previous : Kind)
    (token : Token)
    (rest : List Token) : Parsed Element rest.length :=
  match token.kind.style? with
  | some style =>
      if opens previous token.kind rest then
        closeStyled style token
          (elements (fun kind => kind == token.kind) token.kind rest)
      else
        plain token rest
  | none => simple token rest
termination_by 2 * rest.length + 2
decreasing_by
  exact Nat.lt_succ_self _

/-- The elements up to the end of the line or up to a token whose kind passes a
test, whichever comes first. -/
def elements
    (stops : Kind → Bool)
    (previous : Kind)
    (tokens : List Token) : Parsed (List Element) tokens.length :=
  match tokens with
  | [] => .atEnd [] previous
  | token :: rest =>
      if token.kind == .newline || stops token.kind then
        .leaving [] previous (token :: rest)
      else
        let first := element previous token rest
        let others := elements stops first.last first.rest
        ⟨first.value :: others.value, others.last, others.rest,
          Nat.le_trans others.bounded
            (Nat.le_trans first.bounded (Nat.le_succ rest.length))⟩
termination_by 2 * tokens.length + 1
decreasing_by
  · exact Nat.lt_succ_self _
  · exact Nat.succ_lt_succ (Nat.mul_lt_mul_of_pos_left
      (Nat.lt_succ_of_le (Parsed.bounded _)) Nat.zero_lt_two)

end

end Inline

end Markup
end NotePress
