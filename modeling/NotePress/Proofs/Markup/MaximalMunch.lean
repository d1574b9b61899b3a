import NotePress.Proofs.Document.PlainText
import NotePress.Proofs.Markup.Tokens

/-!
# Tokens are the longest texts that a rule accepts

The rules for tokens, each with the texts that it accepts as a whole, say nothing
about where a token ends in a longer text. The lexer takes at every place the
longest text that some rule accepts, with the kind of that rule, or one character
of plain text where no rule accepts anything. There is exactly one list of tokens
like this, and no token of it reaches over a line feed
(`lex_iff_maximalMunch`).
-/

namespace NotePress
namespace Markup
namespace Lexer

/-! ## The rules -/

/-- The letters `A` to `Z` and `a` to `z`. -/
def IsLetter (character : Char) : Prop :=
  ('A' ≤ character ∧ character ≤ 'Z') ∨ ('a' ≤ character ∧ character ≤ 'z')

/-- The digits `0` to `9`. -/
def IsDigit (character : Char) : Prop :=
  '0' ≤ character ∧ character ≤ '9'

/-- The characters that are tokens by themselves, with their kinds. -/
def signs : List (Char × Kind) :=
  [('*', .star), ('/', .slash), ('_', .underscore), ('-', .dash),
    ('`', .backtick), ('"', .quote), ('\x7b', .leftBrace),
    ('\x7d', .rightBrace), ('|', .pipe), ('[', .leftBracket),
    (']', .rightBracket)]

/-- The characters other than blanks that plain text does not hold. -/
def reserved : List Char :=
  ['#', '@', '*', '/', '_', '-', '`', '"', '\x7b', '\x7d', '|', '[', ']']

/-- The texts that the rule for a kind of tokens accepts as a whole. -/
inductive Accepts : Kind → List Char → Prop
  | whitespace :
      run ≠ [] →
      (∀ character ∈ run, character = ' ' ∨ character = '\t') →
      Accepts .whitespace run
  | lineFeed : Accepts .newline ['\n']
  | returnedLineFeed : Accepts .newline ['\r', '\n']
  | hash : Accepts .hash ['#']
  | hashtagName :
      name ≠ [] →
      (∀ character ∈ name, IsLetter character) →
      Accepts .hashtagName ('#' :: name)
  | mentionName :
      name ≠ [] →
      (∀ character ∈ name,
        IsLetter character ∨ IsDigit character ∨ character = '_') →
      Accepts .mentionName ('@' :: name)
  | sign :
      (character, kind) ∈ signs →
      Accepts kind [character]
  | text :
      run ≠ [] →
      (∀ character ∈ run,
        Text.isBlank character = false ∧ character ∉ reserved) →
      Accepts .text run

/-- A rule accepts a text that some characters start with. -/
structure Matches
    (characters : List Char)
    (kind : Kind)
    (text : List Char) : Prop where
  accepts : Accepts kind text
  starts : text <+: characters

/-- The token at the front of some characters: no rule accepts a longer text than
the rule of its kind does, or no rule accepts anything. -/
inductive IsFirst : List Char → Token → Prop
  | longest :
      Matches characters token.kind token.text.toList →
      (∀ kind text, Matches characters kind text →
        text.length ≤ token.text.toList.length) →
      IsFirst characters token
  | stray :
      (∀ kind text, ¬Matches (first :: rest) kind text) →
      IsFirst (first :: rest) ⟨.text, String.ofList [first]⟩

/-- Tokens that make up some characters, each of them the first token of what is
left where it stands. -/
inductive MaximalMunch : List Char → List Token → Prop
  | nil : MaximalMunch [] []
  | cons {token : Token} :
      IsFirst (token.text.toList ++ rest) token →
      MaximalMunch rest others →
      MaximalMunch (token.text.toList ++ rest) (token :: others)

/-! ## The classes of characters -/

/-- Blanks between words are spaces and tabs. -/
theorem isSpacing_iff :
    Text.isSpacing character = true ↔ character = ' ' ∨ character = '\t' := by
  simp [Text.isSpacing]

/-- The letters of a hashtag are the letters of the alphabet. -/
theorem isTagLetter_iff :
    isTagLetter character = true ↔ IsLetter character := by
  have upper : character.isUpper = true ↔ 'A' ≤ character ∧ character ≤ 'Z' :=
    decide_eq_true_iff
  have lower : character.isLower = true ↔ 'a' ≤ character ∧ character ≤ 'z' :=
    (Bool.and_eq_true_iff).trans (and_congr decide_eq_true_iff decide_eq_true_iff)
  rw [IsLetter, ← upper, ← lower, ← Bool.or_eq_true]
  rfl

/-- The characters of a name are letters, digits and underscores. -/
theorem isNameCharacter_iff :
    isNameCharacter character = true ↔
      IsLetter character ∨ IsDigit character ∨ character = '_' := by
  rw [isNameCharacter, Bool.or_eq_true, Char.isAlphanum, Bool.or_eq_true,
    ← isTagLetter, isTagLetter_iff, beq_iff_eq, or_assoc]
  simp [Char.isDigit, IsDigit, Char.le_def]

/-- Punctuation is one of the signs. -/
theorem punctuation_iff :
    punctuation? character = some kind ↔ (character, kind) ∈ signs := by
  constructor
  · intro found
    obtain rfl := eq_sign_of_punctuation found
    cases kind <;> cases found <;> decide
  · intro member
    simp only [signs, List.mem_cons, Prod.mk.injEq, List.not_mem_nil,
      or_false] at member
    rcases member with ⟨rfl, rfl⟩ | ⟨rfl, rfl⟩ | ⟨rfl, rfl⟩ | ⟨rfl, rfl⟩ |
      ⟨rfl, rfl⟩ | ⟨rfl, rfl⟩ | ⟨rfl, rfl⟩ | ⟨rfl, rfl⟩ | ⟨rfl, rfl⟩ |
      ⟨rfl, rfl⟩ | ⟨rfl, rfl⟩ <;> rfl

/-- What plain text does not hold are its reserved characters. -/
theorem mem_reserved_iff :
    character ∈ reserved ↔
      character = '#' ∨ character = '@' ∨
        (punctuation? character).isSome = true := by
  simp only [Option.isSome_iff_exists, punctuation_iff, reserved, signs,
    List.mem_cons, Prod.mk.injEq, List.not_mem_nil, or_false, exists_or,
    exists_and_left, exists_eq, and_true]

/-- Plain text holds everything else that is no blank. -/
theorem isPlain_iff :
    isPlain character = true ↔
      Text.isBlank character = false ∧ character ∉ reserved := by
  rw [mem_reserved_iff, isPlain]
  simp [and_assoc]

/-! ## Every match is in front of the next token -/

/-- A text of a class of characters is in front of some others only as far as
their run of the class goes. -/
theorem prefix_takeWhile
    {test : Char → Bool}
    {text characters : List Char}
    (starts : text <+: characters)
    (passes : ∀ character ∈ text, test character = true) :
    text <+: characters.takeWhile test := by
  obtain ⟨more, rfl⟩ := starts
  rw [List.takeWhile_append_of_pos passes]
  exact List.prefix_append text _

/-- A text stands in front of a token, and is of its kind where it is the whole
token. -/
structure IsFrontOf
    (token : Token)
    (kind : Kind)
    (text : List Char) : Prop where
  starts : text <+: token.text.toList
  kind : text.length = token.text.toList.length → kind = token.kind

theorem isFrontOf_whole
    (kind : Kind)
    (text : List Char) :
    IsFrontOf ⟨kind, String.ofList text⟩ kind text :=
  ⟨by simp, fun _ => rfl⟩

/-- A nonempty run of a class stands in front of the whole run. -/
theorem isFrontOf_takeRun
    {test : Char → Bool}
    {first : Char}
    {rest run : List Char}
    (starts : run <+: first :: rest)
    (nonempty : run ≠ [])
    (passes : ∀ character ∈ run, test character = true)
    (kind : Kind) :
    test first = true ∧
      IsFrontOf (takeRun kind test first rest).1 kind run := by
  obtain ⟨head, others, rfl⟩ := List.exists_cons_of_ne_nil nonempty
  obtain ⟨rfl, _⟩ := List.cons_prefix_cons.mp starts
  have here : test head = true := passes head List.mem_cons_self
  refine ⟨here, ?_, fun _ => rfl⟩
  have within := prefix_takeWhile starts passes
  rwa [List.takeWhile_cons_of_pos here, ← String.toList_ofList
    (l := head :: rest.takeWhile test)] at within

/-- A name after its sign stands in front of the whole name, which is not
empty. -/
theorem isFrontOf_takeRun_of_name
    {test : Char → Bool}
    {sign : Char}
    {rest name : List Char}
    (starts : name <+: rest)
    (nonempty : name ≠ [])
    (passes : ∀ character ∈ name, test character = true)
    (kind : Kind) :
    rest.takeWhile test ≠ [] ∧
      IsFrontOf (takeRun kind test sign rest).1 kind (sign :: name) := by
  have within := prefix_takeWhile starts passes
  refine ⟨fun nothing => nonempty ?_, ?_, fun _ => rfl⟩
  · rwa [nothing, List.prefix_nil] at within
  · rw [takeRun, String.toList_ofList]
    exact List.cons_prefix_cons.mpr ⟨rfl, within⟩

/-- Punctuation is the next token by itself. -/
theorem nextToken_of_punctuation
    (found : punctuation? first = some kind)
    (rest : List Char) :
    nextToken first rest = (⟨kind, String.ofList [first]⟩, rest) := by
  obtain rfl := eq_sign_of_punctuation found
  cases kind <;> cases found <;> rfl

/-- A number sign in front of letters starts a hashtag name. -/
theorem nextToken_hashtagName
    (named : rest.takeWhile isTagLetter ≠ []) :
    nextToken '#' rest = takeRun .hashtagName isTagLetter '#' rest := by
  unfold nextToken
  cases letters : rest.takeWhile isTagLetter with
  | nil => exact absurd letters named
  | cons first others => rfl

/-- An at sign in front of a name starts a mention. -/
theorem nextToken_mentionName
    (named : rest.takeWhile isNameCharacter ≠ []) :
    nextToken '@' rest = takeRun .mentionName isNameCharacter '@' rest := by
  unfold nextToken
  cases letters : rest.takeWhile isNameCharacter with
  | nil => exact absurd letters named
  | cons first others => rfl

/-- A number sign stands in front of the token that it starts. -/
theorem isFrontOf_hash (rest : List Char) :
    IsFrontOf (nextToken '#' rest).1 .hash ['#'] := by
  by_cases named : rest.takeWhile isTagLetter = []
  · have alone : nextToken '#' rest = (⟨.hash, "#"⟩, rest) := by
      unfold nextToken
      rw [named]
      rfl
    rw [alone]
    exact isFrontOf_whole .hash ['#']
  · rw [nextToken_hashtagName named, takeRun]
    constructor
    · rw [String.toList_ofList]
      exact List.prefix_append ['#'] _
    · intro whole
      rw [String.toList_ofList, List.length_cons, List.length_cons] at whole
      exact absurd (List.length_eq_zero_iff.mp (Nat.succ.inj whole).symm) named

/-- What a rule accepts at some place stands in front of the token there. -/
theorem Matches.isFrontOf
    (found : Matches (first :: rest) kind text) :
    IsFrontOf (nextToken first rest).1 kind text := by
  obtain ⟨accepts, starts⟩ := found
  cases accepts with
  | whitespace nonempty spacing =>
      obtain ⟨here, front⟩ := isFrontOf_takeRun starts nonempty
        (fun character member => isSpacing_iff.mpr (spacing character member))
        .whitespace
      rwa [nextToken_of_isSpacing here]
  | lineFeed =>
      obtain ⟨rfl, _⟩ := List.cons_prefix_cons.mp starts
      exact isFrontOf_whole .newline ['\n']
  | returnedLineFeed =>
      obtain ⟨rfl, more, rfl⟩ := List.cons_prefix_cons.mp starts
      exact isFrontOf_whole .newline ['\r', '\n']
  | hash =>
      obtain ⟨rfl, _⟩ := List.cons_prefix_cons.mp starts
      exact isFrontOf_hash rest
  | hashtagName nonempty letters =>
      obtain ⟨rfl, others⟩ := List.cons_prefix_cons.mp starts
      obtain ⟨named, front⟩ := isFrontOf_takeRun_of_name others nonempty
        (fun character member => isTagLetter_iff.mpr (letters character member))
        .hashtagName
      rwa [nextToken_hashtagName named]
  | mentionName nonempty named =>
      obtain ⟨rfl, others⟩ := List.cons_prefix_cons.mp starts
      obtain ⟨named, front⟩ := isFrontOf_takeRun_of_name others nonempty
        (fun character member =>
          isNameCharacter_iff.mpr (named character member))
        .mentionName
      rwa [nextToken_mentionName named]
  | sign member =>
      obtain ⟨rfl, _⟩ := List.cons_prefix_cons.mp starts
      rw [nextToken_of_punctuation (punctuation_iff.mpr member)]
      exact isFrontOf_whole _ _
  | text nonempty plain =>
      obtain ⟨here, front⟩ := isFrontOf_takeRun starts nonempty
        (fun character member => isPlain_iff.mpr (plain character member))
        .text
      rwa [nextToken_of_isPlain here]

/-! ## The first token -/

/-- A token of the lexer is what a rule accepts, or one character. -/
theorem accepts_of_spelling
    (spelling : Spelling token) :
    Accepts token.kind token.text.toList ∨
      ∃ character, token = ⟨.text, String.ofList [character]⟩ := by
  cases spelling with
  | spacing spacing =>
      refine .inl (.whitespace (by simp) fun character member => ?_)
      rw [String.toList_ofList] at member
      exact isSpacing_iff.mp (spacing character member)
  | newline feed =>
      rcases feed with rfl | rfl
      · exact .inl .lineFeed
      · exact .inl .returnedLineFeed
  | hash => exact .inl .hash
  | hashtagName nonempty letters =>
      rw [String.toList_ofList]
      exact .inl (.hashtagName nonempty fun character member =>
        isTagLetter_iff.mp (letters character member))
  | mentionName nonempty named =>
      rw [String.toList_ofList]
      exact .inl (.mentionName nonempty fun character member =>
        isNameCharacter_iff.mp (named character member))
  | @punctuation kind character found =>
      rw [show character.toString.toList = [character] by simp]
      exact .inl (.sign (punctuation_iff.mp found))
  | plain plain =>
      rw [String.toList_ofList]
      exact .inl (.text (by simp) fun character member =>
        isPlain_iff.mp (plain character member))
  | stray character _ _ => exact .inr ⟨character, rfl⟩

theorem ne_nil_of_accepts (accepts : Accepts kind text) : text ≠ [] := by
  cases accepts with
  | whitespace nonempty _ => exact nonempty
  | text nonempty _ => exact nonempty
  | _ => simp

/-- The next token is at the front of what is left. -/
theorem prefix_nextToken
    (first : Char)
    (rest : List Char) :
    (nextToken first rest).1.text.toList <+: first :: rest :=
  ⟨_, nextToken_append first rest⟩

/-- Where some rule accepts something, the next token is what a rule accepts: a
single character is the least that can be accepted. -/
theorem accepts_nextToken
    (found : Matches (first :: rest) kind text) :
    Accepts (nextToken first rest).1.kind
      (nextToken first rest).1.text.toList := by
  rcases accepts_of_spelling (spelling_nextToken first rest) with
    accepts | ⟨character, stray⟩
  · exact accepts
  · obtain ⟨starts, sameKind⟩ := found.isFrontOf
    have nonempty := ne_nil_of_accepts found.accepts
    rw [stray] at starts sameKind ⊢
    rw [String.toList_ofList] at starts sameKind ⊢
    obtain rfl | rfl : text = [] ∨ text = [character] := by
      simpa [List.prefix_cons_iff] using starts
    · exact absurd rfl nonempty
    · obtain rfl : kind = .text := sameKind rfl
      exact found.accepts

/-- Where no rule accepts anything, the next token is one character. -/
theorem nextToken_of_nothing
    (nothing : ∀ kind text, ¬Matches (first :: rest) kind text) :
    (nextToken first rest).1 = ⟨.text, String.ofList [first]⟩ := by
  have starts := prefix_nextToken first rest
  rcases accepts_of_spelling (spelling_nextToken first rest) with
    accepts | ⟨character, stray⟩
  · exact absurd ⟨accepts, starts⟩ (nothing _ _)
  · rw [stray, String.toList_ofList] at starts
    rw [stray, (List.cons_prefix_cons.mp starts).1]

/-- The next token is the only one that is first by the rules. -/
theorem isFirst_iff
    (first : Char)
    (rest : List Char)
    (token : Token) :
    IsFirst (first :: rest) token ↔ token = (nextToken first rest).1 := by
  constructor
  · intro isFirst
    cases isFirst with
    | longest found longest =>
        obtain ⟨starts, sameKind⟩ := found.isFrontOf
        have whole := longest _ _
          ⟨accepts_nextToken found, prefix_nextToken first rest⟩
        have sameText := starts.eq_of_length_le whole
        have sameKind := sameKind (congrArg List.length sameText)
        cases token
        exact congrArg₂ Token.mk sameKind (String.toList_injective sameText)
    | stray nothing => rw [nextToken_of_nothing nothing]
  · rintro rfl
    by_cases found : ∃ kind text, Matches (first :: rest) kind text
    · obtain ⟨kind, text, found⟩ := found
      exact .longest ⟨accepts_nextToken found, prefix_nextToken first rest⟩
        fun _ _ other => other.isFrontOf.starts.length_le
    · have nothing : ∀ kind text, ¬Matches (first :: rest) kind text :=
        fun kind text other => found ⟨kind, text, other⟩
      rw [nextToken_of_nothing nothing]
      exact .stray nothing

theorem IsFirst.ne_nil (isFirst : IsFirst characters token) :
    characters ≠ [] := by
  cases isFirst with
  | longest found _ =>
      rintro rfl
      exact ne_nil_of_accepts found.accepts (List.prefix_nil.mp found.starts)
  | stray _ => exact List.cons_ne_nil _ _

/-! ## All tokens -/

/-- The tokens of the lexer are the longest texts at their places. -/
theorem maximalMunch_tokens (characters : List Char) :
    MaximalMunch characters (tokens characters) := by
  induction characters using tokens.induct with
  | case1 =>
      rw [tokens]
      exact .nil
  | case2 first rest inductionHypothesis =>
      have whole := nextToken_append first rest
      have here := (isFirst_iff first rest _).mpr rfl
      rw [← whole] at here
      rw [tokens]
      have munch := MaximalMunch.cons here inductionHypothesis
      rwa [whole] at munch

/-- Only the tokens of the lexer are the longest texts at their places. -/
theorem MaximalMunch.eq_tokens
    (munch : MaximalMunch characters others) :
    others = tokens characters := by
  induction munch with
  | nil => rw [tokens]
  | @cons rest _ token isFirst _ inductionHypothesis =>
      obtain ⟨first, more, whole⟩ := List.exists_cons_of_ne_nil isFirst.ne_nil
      rw [whole] at isFirst ⊢
      obtain rfl := (isFirst_iff first more token).mp isFirst
      have sameRest : rest = (nextToken first more).2 :=
        List.append_cancel_left (whole.trans (nextToken_append first more).symm)
      rw [tokens, inductionHypothesis, sameRest]

end Lexer

/-- The tokens of a source are the only ones that make it up and of which each is
the longest text at its place that some rule accepts, of the kind of this rule, or
one character of plain text where no rule accepts anything. A line with its line
feed is lexed apart from what is below. -/
theorem lex_iff_maximalMunch :
    (∀ (source : String) (tokens : List Token),
      Lexer.MaximalMunch source.toList tokens ↔ tokens = lex source) ∧
    ∀ above below : String,
      lex (above ++ "\n" ++ below) = lex (above ++ "\n") ++ lex below := by
  refine ⟨fun source tokens => ⟨Lexer.MaximalMunch.eq_tokens, ?_⟩, ?_⟩
  · rintro rfl
    exact Lexer.maximalMunch_tokens source.toList
  · intro above below
    refine lex_append _ below fun last isLast => ?_
    rw [String.toList_append, show "\n".toList = ['\n'] from rfl,
      List.getLast?_concat] at isLast
    exact (Option.mem_some.mp isLast).symm

end Markup
end NotePress
