import Mathlib.Data.List.TakeWhile
import NotePress.Proofs.Markup.Lexing

/-!
# Line breaks cut the token list

No token reaches over a line feed, so a text that is empty or ends with a line
feed can be lexed apart from the text after it. The tokens of such a text end
with a line ending, if there are any, and no token that the lexer makes is
markup yet.
-/

namespace NotePress

/-! ## Lists by their last element -/

/-- A list whose last element, if it has one, satisfies a property. -/
def EndsIn
    (property : α → Prop)
    (list : List α) : Prop :=
  ∀ last ∈ list.getLast?, property last

namespace EndsIn

theorem nil (property : α → Prop) : EndsIn property [] := by
  intro last member
  cases member

theorem of_append
    {first second : List α}
    (ends : EndsIn property (first ++ second)) :
    EndsIn property second := by
  intro last member
  apply ends last
  rw [List.getLast?_append, Option.mem_def.mp member]
  rfl

theorem append
    {back : List α}
    (ends : EndsIn property back)
    (nonempty : back ≠ [])
    (front : List α) :
    EndsIn property (front ++ back) := by
  intro last isLast
  cases final : back.getLast? with
  | none => exact absurd (List.getLast?_eq_none_iff.mp final) nonempty
  | some other =>
      rw [List.getLast?_append, final] at isLast
      cases isLast
      exact ends last final

/-- What stands at the end of such a list is such a list. -/
theorem of_suffix
    {list suffix : List α}
    (ends : EndsIn property list)
    (isSuffix : suffix <:+ list) :
    EndsIn property suffix := by
  obtain ⟨front, rfl⟩ := isSuffix
  exact ends.of_append

theorem of_cons
    {first : α}
    {others : List α}
    (ends : EndsIn property (first :: others)) :
    EndsIn property others :=
  ends.of_suffix (List.suffix_cons first others)

/-- Such a list goes on after an element without the property. -/
theorem ne_nil
    {first : α}
    {others : List α}
    (ends : EndsIn property (first :: others))
    (without : ¬property first) :
    others ≠ [] := by
  rintro rfl
  exact without (ends first rfl)

/-- A nonempty list has an element with the property. -/
theorem exists_mem
    {list : List α}
    (ends : EndsIn property list)
    (nonempty : list ≠ []) :
    ∃ element ∈ list, property element :=
  ⟨list.getLast nonempty, List.getLast_mem nonempty,
    ends _ (List.getLast?_eq_some_getLast nonempty)⟩

end EndsIn

/-! ## Runs that end before what is appended -/

/-- A run that stops inside a list stops there whatever comes after the list. -/
theorem takeWhile_append_of_mem
    {test : α → Bool}
    {list : List α}
    (stopped : ∃ element ∈ list, ¬test element)
    (more : List α) :
    (list ++ more).takeWhile test = list.takeWhile test := by
  rw [List.takeWhile_append, if_neg]
  intro whole
  obtain ⟨element, member, fails⟩ := stopped
  have all := List.takeWhile_eq_self_iff.mp
    (List.IsPrefix.eq_of_length (List.takeWhile_prefix test) whole)
  exact fails (all element member)

/-- After a run that stops inside a list come the rest of the list and what is
appended. -/
theorem dropWhile_append_of_mem
    {test : α → Bool}
    {list : List α}
    (stopped : ∃ element ∈ list, ¬test element)
    (more : List α) :
    (list ++ more).dropWhile test = list.dropWhile test ++ more := by
  rw [List.dropWhile_append, if_neg]
  intro empty
  obtain ⟨element, member, fails⟩ := stopped
  have all := List.dropWhile_eq_nil_iff.mp (List.isEmpty_iff.mp empty)
  exact fails (all element member)

/-- A run does not go on into a list that it cannot start with. -/
theorem takeWhile_append_of_eq_nil
    {test : α → Bool}
    (list : List α)
    {more : List α}
    (nothing : more.takeWhile test = []) :
    (list ++ more).takeWhile test = list.takeWhile test := by
  induction list with
  | nil => exact nothing
  | cons first others inductionHypothesis =>
      rw [List.cons_append, List.takeWhile_cons, List.takeWhile_cons,
        inductionHypothesis]

/-- After a run that cannot go on into a list comes that list. -/
theorem dropWhile_append_of_eq_nil
    {test : α → Bool}
    (list : List α)
    {more : List α}
    (nothing : more.takeWhile test = []) :
    (list ++ more).dropWhile test = list.dropWhile test ++ more := by
  induction list with
  | nil =>
      have whole := List.takeWhile_append_dropWhile (p := test) (l := more)
      rwa [nothing, List.nil_append] at whole
  | cons first others inductionHypothesis =>
      rw [List.cons_append, List.dropWhile_cons, List.dropWhile_cons,
        inductionHypothesis]
      split <;> rfl

namespace Markup
namespace Lexer

/-! ## One token -/

/-- A run ends at a character outside its class, whatever comes after it. -/
theorem takeRun_append_of_mem
    (kind : Kind)
    (test : Char → Bool)
    (first : Char)
    {rest : List Char}
    (stopped : ∃ character ∈ rest, ¬test character)
    (more : List Char) :
    takeRun kind test first (rest ++ more) =
      ((takeRun kind test first rest).1,
        (takeRun kind test first rest).2 ++ more) := by
  rw [takeRun, takeRun, takeWhile_append_of_mem stopped,
    dropWhile_append_of_mem stopped]

/-- A text that ends with a line feed leaves every class of characters that has
no line feed in it. -/
theorem exists_not_of_endsIn
    {rest : List Char}
    (ends : EndsIn (· = '\n') rest)
    (nonempty : rest ≠ [])
    (test : Char → Bool)
    (fails : test '\n' = false) :
    ∃ character ∈ rest, ¬test character := by
  obtain ⟨character, member, rfl⟩ := ends.exists_mem nonempty
  exact ⟨'\n', member, by rw [fails]; decide⟩

/-- The first token of a text that ends with a line feed is the same whatever
comes after the text. -/
theorem nextToken_append_of_endsIn
    (first : Char)
    (rest : List Char)
    (ends : EndsIn (· = '\n') (first :: rest))
    (more : List Char) :
    nextToken first (rest ++ more) =
      ((nextToken first rest).1, (nextToken first rest).2 ++ more) := by
  by_cases feed : first = '\n'
  · subst feed
    rfl
  have nonempty : rest ≠ [] := ends.ne_nil feed
  have leaves := fun test fails =>
    exists_not_of_endsIn ends.of_cons nonempty test fails
  obtain ⟨second, others, rfl⟩ := List.exists_cons_of_ne_nil nonempty
  have spacing := leaves Text.isSpacing (by decide)
  have letters := leaves isTagLetter (by decide)
  have names := leaves isNameCharacter (by decide)
  have plains := leaves isPlain (by decide)
  unfold nextToken
  simp only [takeWhile_append_of_mem letters, takeWhile_append_of_mem names,
    takeRun_append_of_mem _ _ _ spacing, takeRun_append_of_mem _ _ _ letters,
    takeRun_append_of_mem _ _ _ names, takeRun_append_of_mem _ _ _ plains]
  split_ifs
  · rfl
  · by_cases lineFeed : second = '\n'
    · subst lineFeed
      rfl
    · simp [lineFeed]
  · cases (second :: others).takeWhile isTagLetter <;> rfl
  · cases (second :: others).takeWhile isNameCharacter <;> rfl
  · cases punctuation? first with
    | some kind => rfl
    | none => rfl
  · cases punctuation? first with
    | some kind => rfl
    | none => rfl

/-- The next token leaves the characters behind it. -/
theorem suffix_nextToken
    (first : Char)
    (rest : List Char) :
    (nextToken first rest).2 <:+ first :: rest :=
  ⟨_, nextToken_append first rest⟩

/-- No punctuation is of a kind that marks something up. -/
theorem kind_punctuation_not_markup
    {character : Char}
    {kind : Kind}
    (found : punctuation? character = some kind) :
    kind.isMarkup = false := by
  unfold punctuation? at found
  split at found <;> cases found <;> rfl

/-- The kinds that the lexer gives are none of those that mark something up. -/
theorem kind_nextToken_not_markup
    (first : Char)
    (rest : List Char) :
    (nextToken first rest).1.kind.isMarkup = false := by
  unfold nextToken takeRun
  repeat' split
  all_goals first
    | rfl
    | exact kind_punctuation_not_markup ‹_›

/-- The token that takes up a text that ends with a line feed is a line
ending. -/
theorem kind_nextToken_of_nothing_left
    (first : Char)
    (rest : List Char)
    (ends : EndsIn (· = '\n') (first :: rest))
    (nothing : (nextToken first rest).2 = []) :
    (nextToken first rest).1.kind = .newline := by
  by_cases feed : first = '\n'
  · subst feed
    rfl
  have nonempty : rest ≠ [] := ends.ne_nil feed
  have leaves : ∀ test : Char → Bool, test '\n' = false →
      rest.dropWhile test ≠ [] := by
    intro test fails taken
    obtain ⟨character, member, outside⟩ :=
      exists_not_of_endsIn ends.of_cons nonempty test fails
    exact outside (List.dropWhile_eq_nil_iff.mp taken character member)
  have spacing := leaves Text.isSpacing (by decide)
  have letters := leaves isTagLetter (by decide)
  have names := leaves isNameCharacter (by decide)
  have plains := leaves isPlain (by decide)
  revert nothing
  unfold nextToken takeRun
  repeat' split
  all_goals first
    | exact fun _ => rfl
    | exact fun nothing => absurd nothing ‹_›

/-! ## All tokens -/

/-- What is lexed after a text that is empty or ends with a line feed does not
reach into the text. -/
theorem tokens_append_of_endsIn
    (characters more : List Char)
    (ends : EndsIn (· = '\n') characters) :
    tokens (characters ++ more) = tokens characters ++ tokens more := by
  induction characters using tokens.induct with
  | case1 => rw [tokens, List.nil_append, List.nil_append]
  | case2 first rest inductionHypothesis =>
      have after := ends.of_suffix (suffix_nextToken first rest)
      rw [List.cons_append, tokens, nextToken_append_of_endsIn first rest ends,
        tokens, inductionHypothesis after, List.cons_append]

/-- Only an empty text has no tokens. -/
theorem tokens_eq_nil_iff (characters : List Char) :
    tokens characters = [] ↔ characters = [] := by
  cases characters with
  | nil => simp [tokens]
  | cons first rest => simp [tokens]

/-- A text that ends with a line feed ends with a line ending. -/
theorem endsIn_tokens
    (characters : List Char)
    (ends : EndsIn (· = '\n') characters) :
    EndsIn (·.kind = .newline) (tokens characters) := by
  induction characters using tokens.induct with
  | case1 =>
      rw [tokens]
      exact .nil _
  | case2 first rest inductionHypothesis =>
      have after := ends.of_suffix (suffix_nextToken first rest)
      rw [tokens]
      intro last isLast
      rw [List.getLast?_cons] at isLast
      cases others : (tokens (nextToken first rest).2).getLast? with
      | none =>
          rw [others] at isLast
          cases isLast
          exact kind_nextToken_of_nothing_left first rest ends
            ((tokens_eq_nil_iff _).mp (List.getLast?_eq_none_iff.mp others))
      | some other =>
          rw [others] at isLast
          cases isLast
          exact inductionHypothesis after other others

end Lexer

/-- A source up to the end of one of its lines is lexed apart from the rest of
the source. -/
theorem lex_append
    (above below : String)
    (ends : EndsIn (· = '\n') above.toList) :
    lex (above ++ below) = lex above ++ lex below := by
  rw [lex, String.toList_append, Lexer.tokens_append_of_endsIn _ _ ends, lex,
    lex]

/-- A source that ends with a line feed ends with a line ending. -/
theorem endsIn_lex
    {source : String}
    (ends : EndsIn (· = '\n') source.toList) :
    EndsIn (·.kind = .newline) (lex source) :=
  Lexer.endsIn_tokens source.toList ends

/-! ## Tokens of the lexer -/

/-- A token that the lexer makes of some text. -/
def Token.IsLexed (token : Token) : Prop :=
  ∃ first rest, (Lexer.nextToken first rest).1 = token

/-- Tokens of the lexer. -/
def AllLexed (tokens : List Token) : Prop :=
  ∀ token ∈ tokens, token.IsLexed

theorem AllLexed.of_suffix
    (lexed : AllLexed tokens)
    (isSuffix : rest <:+ tokens) :
    AllLexed rest :=
  fun token member => lexed token (isSuffix.subset member)

theorem AllLexed.of_cons
    (lexed : AllLexed (first :: others)) :
    AllLexed others :=
  lexed.of_suffix (List.suffix_cons first others)

theorem AllLexed.head
    (lexed : AllLexed (first :: others)) :
    first.IsLexed :=
  lexed first List.mem_cons_self

/-- The tokens of a text are tokens of the lexer. -/
theorem allLexed_tokens (characters : List Char) :
    AllLexed (Lexer.tokens characters) := by
  induction characters using Lexer.tokens.induct with
  | case1 =>
      rw [Lexer.tokens]
      intro token member
      cases member
  | case2 first rest inductionHypothesis =>
      rw [Lexer.tokens]
      intro token member
      rcases List.mem_cons.mp member with rfl | later
      · exact ⟨first, rest, rfl⟩
      · exact inductionHypothesis token later

theorem allLexed_lex (source : String) : AllLexed (lex source) :=
  allLexed_tokens source.toList

/-- What separates words is blank. -/
theorem isBlank_of_isSpacing
    {character : Char}
    (spacing : Text.isSpacing character = true) :
    Text.isBlank character = true := by
  simp only [Text.isSpacing, Bool.or_eq_true, beq_iff_eq] at spacing
  rcases spacing with rfl | rfl <;> decide

namespace Token.IsLexed

/-- The lexer makes no markup. -/
theorem not_markup
    {token : Token}
    (lexed : token.IsLexed) :
    token.kind.isMarkup = false := by
  obtain ⟨first, rest, rfl⟩ := lexed
  exact Lexer.kind_nextToken_not_markup first rest

/-- The lexer makes no delimiters. -/
theorem ne_delimiter
    {token : Token}
    (lexed : token.IsLexed) :
    token.kind ≠ .delimiter := by
  intro delimiter
  have notMarkup := lexed.not_markup
  rw [delimiter] at notMarkup
  cases notMarkup

/-- The kinds of tokens that are neither runs nor line endings are told by their
one character. -/
theorem cases_of_isLexed
    {token : Token}
    (lexed : token.IsLexed) :
    (token.kind = .whitespace ∧
      ∀ character ∈ token.text.toList, Text.isSpacing character = true) ∨
    (token.kind = .newline ∧ (token.text = "\n" ∨ token.text = "\r\n")) ∨
    (∃ character, Lexer.punctuation? character = some token.kind ∧
      token.text = character.toString) ∨
    token.kind ∈ [.text, .hash, .hashtagName, .mentionName] := by
  obtain ⟨first, rest, rfl⟩ := lexed
  unfold Lexer.nextToken Lexer.takeRun
  repeat' split
  · rename_i spacing
    refine .inl ⟨rfl, ?_⟩
    intro character member
    rw [String.toList_ofList, List.mem_cons] at member
    rcases member with rfl | later
    · exact spacing
    · exact List.mem_takeWhile_imp later
  · exact .inr (.inl ⟨rfl, .inl rfl⟩)
  · exact .inr (.inl ⟨rfl, .inr rfl⟩)
  all_goals first
    | exact .inr (.inr (.inl ⟨first, ‹_›, rfl⟩))
    | exact .inr (.inr (.inr (by simp)))

/-- A backtick is a token of its own. -/
theorem text_of_backtick
    {token : Token}
    (lexed : token.IsLexed)
    (isBacktick : token.kind = .backtick) :
    token.text = "`" := by
  have kinds := lexed.cases_of_isLexed
  rw [isBacktick] at kinds
  rcases kinds with ⟨other, _⟩ | ⟨other, _⟩ | ⟨character, found, text⟩ | other
  · cases other
  · cases other
  · unfold Lexer.punctuation? at found
    split at found <;> cases found
    exact text
  · exact absurd other (by decide)

/-- Blanks between words and line endings are blank. -/
theorem isBlank_of_mem
    {token : Token}
    (lexed : token.IsLexed)
    (space : token.kind = .whitespace ∨ token.kind = .newline) :
    ∀ character ∈ token.text.toList, Text.isBlank character = true := by
  rcases lexed.cases_of_isLexed with
    ⟨_, spacing⟩ | ⟨_, feed | feed⟩ | ⟨character, found, _⟩ | other
  · exact fun character member => isBlank_of_isSpacing (spacing character member)
  · rw [feed]
    exact List.all_eq_true.mp (by decide)
  · rw [feed]
    exact List.all_eq_true.mp (by decide)
  · rcases space with space | space <;> rw [space] at found <;>
      unfold Lexer.punctuation? at found <;> split at found <;> cases found
  · rcases space with space | space <;> simp [space] at other

end Token.IsLexed

end Markup
end NotePress
