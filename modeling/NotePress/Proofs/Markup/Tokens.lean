import NotePress.Proofs.Markup.LineBreaks

/-!
# How tokens are spelled

The kind of a token tells the characters of its text, and a separating character
tells the kind of the token that it stands in. Punctuation that separates is a
token by itself, so the texts on both sides of it are lexed apart
(`tokens_append_of_separator`).
-/

namespace NotePress
namespace Markup
namespace Lexer

/-! ## Separating characters -/

/-- The character that is always a token of a kind. -/
def sign : Kind → Char
  | .star => '*'
  | .slash => '/'
  | .underscore => '_'
  | .dash => '-'
  | .backtick => '`'
  | .quote => '"'
  | .leftBrace => '\x7b'
  | .rightBrace => '\x7d'
  | .pipe => '|'
  | .leftBracket => '['
  | .rightBracket => ']'
  | _ => ' '

/-- Punctuation is the sign of its kind. -/
theorem eq_sign_of_punctuation
    (found : punctuation? character = some kind) :
    character = sign kind := by
  unfold punctuation? at found
  split at found <;> cases found <;> rfl

/-- The sign of a kind of punctuation is punctuation. -/
theorem punctuation_sign
    (found : punctuation? character = some kind) :
    punctuation? (sign kind) = some kind := by
  rwa [← eq_sign_of_punctuation found]

/-- The kind of the tokens that a character stands in, where it tells that. -/
def separator? (character : Char) : Option Kind :=
  if character = '\n' then some .newline
  else if isNameCharacter character then none
  else punctuation? character

theorem separator_of_isSpacing (spacing : Text.isSpacing character = true) :
    separator? character = none := by
  simp only [Text.isSpacing, Bool.or_eq_true, beq_iff_eq] at spacing
  rcases spacing with rfl | rfl <;> decide

/-- A character of a name separates nothing. -/
theorem separator_of_isNameCharacter
    (named : isNameCharacter character = true) :
    separator? character = none := by
  unfold separator?
  rw [if_pos named]
  split
  · rename_i feed
    subst feed
    exact absurd named (by decide)
  · rfl

theorem separator_of_isTagLetter
    (letter : isTagLetter character = true) :
    separator? character = none := by
  apply separator_of_isNameCharacter
  rw [isTagLetter] at letter
  simp [isNameCharacter, Char.isAlphanum, letter]

/-- A character of plain text separates nothing. -/
theorem separator_of_isPlain (plain : isPlain character = true) :
    separator? character = none := by
  simp only [isPlain, Bool.not_eq_true', Bool.or_eq_false_iff] at plain
  unfold separator?
  split
  · rename_i feed
    subst feed
    exact absurd plain.1.1.1 (by decide)
  · split
    · rfl
    · simpa using plain.2

/-- A character that is neither punctuation nor a line feed separates nothing. -/
theorem separator_of_punctuation
    (nothing : punctuation? character = none)
    (noFeed : character ≠ '\n') :
    separator? character = none := by
  rw [separator?, if_neg noFeed, nothing, ite_self]

end Lexer

/-! ## Spellings -/

/-- A token as one of the rules of the lexer makes it. -/
inductive Spelling : Token → Prop
  | spacing :
      (∀ character ∈ first :: run, Text.isSpacing character = true) →
      Spelling ⟨.whitespace, String.ofList (first :: run)⟩
  | newline :
      text = "\n" ∨ text = "\r\n" →
      Spelling ⟨.newline, text⟩
  | hash : Spelling ⟨.hash, "#"⟩
  | hashtagName :
      letters ≠ [] →
      (∀ character ∈ letters, Lexer.isTagLetter character = true) →
      Spelling ⟨.hashtagName, String.ofList ('#' :: letters)⟩
  | mentionName :
      name ≠ [] →
      (∀ character ∈ name, Lexer.isNameCharacter character = true) →
      Spelling ⟨.mentionName, String.ofList ('@' :: name)⟩
  | punctuation {character : Char} :
      Lexer.punctuation? character = some kind →
      Spelling ⟨kind, character.toString⟩
  | plain :
      (∀ character ∈ first :: run, Lexer.isPlain character = true) →
      Spelling ⟨.text, String.ofList (first :: run)⟩
  | stray (character : Char) :
      Lexer.punctuation? character = none →
      character ≠ '\n' →
      Spelling ⟨.text, character.toString⟩

namespace Lexer

/-- All characters of a run are of its class. -/
theorem mem_run_of_first
    {test : Char → Bool}
    {rest : List Char}
    (passes : test first = true) :
    ∀ character ∈ first :: rest.takeWhile test, test character = true := by
  intro character member
  rcases List.mem_cons.mp member with rfl | inside
  · exact passes
  · exact List.mem_takeWhile_imp inside

/-- The first token of a text is made by one of the rules. -/
theorem spelling_nextToken
    (first : Char)
    (rest : List Char) :
    Spelling (nextToken first rest).1 := by
  unfold nextToken takeRun
  split
  · exact .spacing (mem_run_of_first ‹_›)
  split
  · exact .newline (.inl rfl)
  rename_i noFeed
  split
  · split
    · exact .newline (.inr rfl)
    · exact .stray '\r' (by decide) (by decide)
  split
  · rename_i isHash
    split
    · exact .hash
    · rename_i letters
      rw [isHash]
      exact .hashtagName letters fun _ => List.mem_takeWhile_imp
  split
  · rename_i isAt
    split
    · exact .stray '@' (by decide) (by decide)
    · rename_i named
      rw [isAt]
      exact .mentionName named fun _ => List.mem_takeWhile_imp
  split
  · exact .punctuation ‹_›
  · rename_i unpunctuated
    split
    · exact .plain (mem_run_of_first ‹_›)
    · exact .stray first unpunctuated noFeed

end Lexer

namespace Token.IsLexed

/-- A token of the lexer is spelled by one of its rules. -/
theorem spelling
    {token : Token}
    (lexed : token.IsLexed) :
    Spelling token := by
  obtain ⟨first, rest, rfl⟩ := lexed
  exact Lexer.spelling_nextToken first rest

/-- A separating character stands in tokens of one kind only. -/
theorem kind_of_mem
    {token : Token}
    {kind : Kind}
    (lexed : token.IsLexed)
    (separates : Lexer.separator? character = some kind)
    (member : character ∈ token.text.toList) :
    token.kind = kind := by
  have impossible (nothing : Lexer.separator? character = none) : False := by
    rw [separates] at nothing
    cases nothing
  cases lexed.spelling with
  | spacing spacing =>
      rw [String.toList_ofList] at member
      exact (impossible (Lexer.separator_of_isSpacing
        (spacing character member))).elim
  | newline feed =>
      rcases feed with rfl | rfl
      · obtain rfl : character = '\n' := by simpa using member
        cases separates
        rfl
      · have either : character = '\r' ∨ character = '\n' := by
          simpa using member
        rcases either with rfl | rfl
        · exact (impossible (by decide)).elim
        · cases separates
          rfl
  | hash =>
      obtain rfl : character = '#' := by simpa using member
      exact (impossible (by decide)).elim
  | hashtagName _ letters =>
      rw [String.toList_ofList] at member
      rcases List.mem_cons.mp member with rfl | inside
      · exact (impossible (by decide)).elim
      · exact (impossible (Lexer.separator_of_isTagLetter
          (letters character inside))).elim
  | mentionName _ named =>
      rw [String.toList_ofList] at member
      rcases List.mem_cons.mp member with rfl | inside
      · exact (impossible (by decide)).elim
      · exact (impossible (Lexer.separator_of_isNameCharacter
          (named character inside))).elim
  | @punctuation _ found isPunctuation =>
      obtain rfl : character = found := by simpa using member
      unfold Lexer.separator? at separates
      split at separates
      · rename_i feed
        subst feed
        cases isPunctuation
      · split at separates
        · cases separates
        · rw [isPunctuation] at separates
          exact Option.some.inj separates
  | plain plain =>
      rw [String.toList_ofList] at member
      exact (impossible (Lexer.separator_of_isPlain
        (plain character member))).elim
  | stray found unpunctuated noFeed =>
      obtain rfl : character = found := by simpa using member
      exact (impossible
        (Lexer.separator_of_punctuation unpunctuated noFeed)).elim

/-- A hashtag name is a number sign and letters. -/
theorem spelled_hashtagName
    {token : Token}
    (lexed : token.IsLexed)
    (isName : token.kind = .hashtagName) :
    ∃ letters, letters ≠ [] ∧
      (∀ character ∈ letters, Lexer.isTagLetter character = true) ∧
      token.text.toList = '#' :: letters := by
  cases lexed.spelling with
  | hashtagName nonempty letters =>
      exact ⟨_, nonempty, letters, String.toList_ofList⟩
  | punctuation found =>
      obtain rfl := isName
      cases Lexer.punctuation_sign found
  | _ => cases isName

/-- A mention is an at sign and characters of a name. -/
theorem spelled_mentionName
    {token : Token}
    (lexed : token.IsLexed)
    (isName : token.kind = .mentionName) :
    ∃ name, name ≠ [] ∧
      (∀ character ∈ name, Lexer.isNameCharacter character = true) ∧
      token.text.toList = '@' :: name := by
  cases lexed.spelling with
  | mentionName nonempty named =>
      exact ⟨_, nonempty, named, String.toList_ofList⟩
  | punctuation found =>
      obtain rfl := isName
      cases Lexer.punctuation_sign found
  | _ => cases isName

/-- A hash is a token of its own. -/
theorem text_of_hash
    {token : Token}
    (lexed : token.IsLexed)
    (isHash : token.kind = .hash) :
    token.text = "#" := by
  cases lexed.spelling with
  | hash => rfl
  | punctuation found =>
      obtain rfl := isHash
      cases Lexer.punctuation_sign found
  | _ => cases isHash

/-- A token of a kind that has a character is that character. -/
theorem text_of_sign
    {token : Token}
    {kind : Kind}
    (lexed : token.IsLexed)
    (isKind : token.kind = kind)
    (isSign : Lexer.punctuation? (Lexer.sign kind) = some kind) :
    token.text = (Lexer.sign kind).toString := by
  subst isKind
  cases lexed.spelling with
  | punctuation found => rw [← Lexer.eq_sign_of_punctuation found]
  | _ => cases isSign

/-- A line ending holds a line feed. -/
theorem feed_mem
    {token : Token}
    (lexed : token.IsLexed)
    (newline : token.kind = .newline) :
    '\n' ∈ token.text.toList := by
  cases lexed.spelling with
  | newline feed => rcases feed with rfl | rfl <;> decide
  | punctuation found =>
      obtain rfl := newline
      cases Lexer.punctuation_sign found
  | _ => cases newline

end Token.IsLexed

/-! ## Characters that a source does not hold -/

/-- The characters of a token are characters of its source. -/
theorem toList_subset_of_mem_lex
    {token : Token}
    (member : token ∈ lex source) :
    token.text.toList ⊆ source.toList := by
  intro character inside
  rw [← Lexer.flatMap_text_tokens source.toList]
  exact List.mem_flatMap.mpr ⟨token, member, inside⟩

/-- A source without line feeds is lexed into tokens of one line. -/
theorem ne_newline_of_mem_lex
    {token : Token}
    (noFeed : '\n' ∉ source.toList)
    (member : token ∈ lex source) :
    token.kind ≠ .newline := by
  intro newline
  apply noFeed
  apply toList_subset_of_mem_lex member
  exact (allLexed_lex source token member).feed_mem newline

/-- A source without a punctuation character has no tokens of its kind. -/
theorem ne_kind_of_mem_lex
    {token : Token}
    {kind : Kind}
    (isSign : Lexer.punctuation? (Lexer.sign kind) = some kind)
    (absent : Lexer.sign kind ∉ source.toList)
    (member : token ∈ lex source) :
    token.kind ≠ kind := by
  intro isKind
  apply absent
  apply toList_subset_of_mem_lex member
  rw [(allLexed_lex source token member).text_of_sign isKind isSign]
  simp

/-! ## Separating characters cut the token list -/

/-- The characters of some tokens. -/
def charactersOf (tokens : List Token) : List Char :=
  tokens.flatMap fun token => token.text.toList

/-- Tokens with a text are told by where they are cut. -/
theorem eq_of_charactersOf
    {first other : List Token}
    (same : first ++ second = other ++ later)
    (sameCharacters : charactersOf first = charactersOf other)
    (nonempty : ∀ token ∈ first ++ second, token.text.toList ≠ []) :
    first = other ∧ second = later := by
  induction first generalizing other with
  | nil =>
      cases other with
      | nil => exact ⟨rfl, same⟩
      | cons token others =>
          rw [List.nil_append] at same
          subst same
          have empty : token.text.toList ++ charactersOf others = [] :=
            sameCharacters.symm
          exact absurd (List.append_eq_nil_iff.mp empty).1
            (nonempty token List.mem_cons_self)
  | cons token others inductionHypothesis =>
      cases other with
      | nil =>
          have empty : token.text.toList ++ charactersOf others = [] :=
            sameCharacters
          exact absurd (List.append_eq_nil_iff.mp empty).1
            (nonempty token List.mem_cons_self)
      | cons head tail =>
          obtain ⟨rfl, sameOthers⟩ := List.cons.inj same
          obtain ⟨rfl, sameSecond⟩ := inductionHypothesis sameOthers
            (List.append_cancel_left sameCharacters)
            fun part member => nonempty part (List.mem_cons_of_mem _ member)
          exact ⟨rfl, sameSecond⟩

namespace Lexer

/-- A separating character that is no line feed goes on no run. -/
theorem not_run_of_separator
    (separates : separator? character = some kind)
    (visible : kind ≠ .newline) :
    Text.isSpacing character = false ∧ isTagLetter character = false ∧
      isNameCharacter character = false ∧ isPlain character = false ∧
      character ≠ '\n' ∧ punctuation? character = some kind := by
  have excluded {test : Bool}
      (nothing : test = true → separator? character = none) : test = false := by
    rw [← Bool.not_eq_true]
    intro holds
    rw [nothing holds] at separates
    cases separates
  have noFeed : character ≠ '\n' := by
    rintro rfl
    cases separates
    exact visible rfl
  have unnamed := excluded separator_of_isNameCharacter
  refine ⟨excluded separator_of_isSpacing, excluded separator_of_isTagLetter,
    unnamed, excluded separator_of_isPlain, noFeed, ?_⟩
  rwa [separator?, if_neg noFeed, if_neg (by simp [unnamed])] at separates

/-- A run ends before a character that is not of its class. -/
theorem takeRun_append_of_not
    {test : Char → Bool}
    (stops : test separator = false)
    (kind : Kind)
    (first : Char)
    (rest more : List Char) :
    takeRun kind test first (rest ++ separator :: more) =
      ((takeRun kind test first rest).1,
        (takeRun kind test first rest).2 ++ separator :: more) := by
  have nothing : (separator :: more).takeWhile test = [] := by
    rw [List.takeWhile_cons, stops]
    rfl
  rw [takeRun, takeRun, takeWhile_append_of_eq_nil rest nothing,
    dropWhile_append_of_eq_nil rest nothing]

/-- Punctuation goes on no run but a name, which an underscore goes on. -/
theorem not_run_of_punctuation
    (isSign : punctuation? mark = some kind) :
    Text.isSpacing mark = false ∧ isTagLetter mark = false ∧
      isPlain mark = false ∧ mark ≠ '\n' := by
  obtain rfl := eq_sign_of_punctuation isSign
  cases kind <;> cases isSign <;> decide

/-- A token does not reach over punctuation after it, unless that goes on a
name. -/
theorem nextToken_append_of_punctuation
    {first : Char}
    (isSign : punctuation? mark = some kind)
    (unnamed : first = '@' → isNameCharacter mark = false)
    (rest more : List Char) :
    nextToken first (rest ++ mark :: more) =
      ((nextToken first rest).1, (nextToken first rest).2 ++ mark :: more) := by
  obtain ⟨noSpace, noLetter, notPlain, noFeed⟩ := not_run_of_punctuation isSign
  have nothing (test : Char → Bool) (stops : test mark = false) :
      (mark :: more).takeWhile test = [] := by
    rw [List.takeWhile_cons, stops]
    rfl
  unfold nextToken
  simp only [takeWhile_append_of_eq_nil rest (nothing _ noLetter),
    takeRun_append_of_not noSpace, takeRun_append_of_not noLetter,
    takeRun_append_of_not notPlain]
  split_ifs
  · rfl
  · rfl
  · cases rest with
    | nil =>
        rw [List.nil_append]
        split
        · rename_i same
          exact absurd (List.cons.inj same).1 noFeed
        · rfl
    | cons second others =>
        by_cases lineFeed : second = '\n'
        · subst lineFeed
          rfl
        · simp [lineFeed]
  · cases rest.takeWhile isTagLetter <;> rfl
  · have noName := unnamed ‹_›
    rw [takeWhile_append_of_eq_nil rest (nothing _ noName),
      takeRun_append_of_not noName]
    cases rest.takeWhile isNameCharacter <;> rfl
  · cases punctuation? first with
    | some kind => rfl
    | none => rfl
  · cases punctuation? first with
    | some kind => rfl
    | none => rfl

/-- Punctuation is a token by itself. -/
theorem nextToken_punctuation
    (isSign : punctuation? mark = some kind)
    (rest : List Char) :
    nextToken mark rest = (⟨kind, mark.toString⟩, rest) := by
  obtain rfl := eq_sign_of_punctuation isSign
  cases kind <;> cases isSign <;> rfl

/-- A text that starts with punctuation starts with its token. -/
theorem tokens_punctuation
    (isSign : punctuation? mark = some kind)
    (rest : List Char) :
    tokens (mark :: rest) = ⟨kind, mark.toString⟩ :: tokens rest := by
  rw [tokens, nextToken_punctuation isSign]

/-- Punctuation is a token by itself, and cuts the tokens of a text without
mentions. -/
theorem tokens_append_of_punctuation
    (isSign : punctuation? mark = some kind)
    (front back : List Char)
    (unnamed : '@' ∈ front → isNameCharacter mark = false) :
    tokens (front ++ mark :: back) =
      tokens front ++ ⟨kind, mark.toString⟩ :: tokens back := by
  induction front using tokens.induct with
  | case1 =>
      rw [List.nil_append, tokens_punctuation isSign, tokens, List.nil_append]
  | case2 first rest inductionHypothesis =>
      have later : '@' ∈ (nextToken first rest).2 →
          isNameCharacter mark = false := fun member =>
        unnamed ((suffix_nextToken first rest).subset member)
      have here : first = '@' → isNameCharacter mark = false := by
        rintro rfl
        exact unnamed List.mem_cons_self
      rw [List.cons_append, tokens,
        nextToken_append_of_punctuation isSign here,
        inductionHypothesis later, tokens, List.cons_append]

end Lexer

/-- A separating character, but no line feed, as a token by itself. -/
structure Token.IsSeparator (mark : Token) (character : Char) : Prop where
  text : mark.text = character.toString
  kind : Lexer.separator? character = some mark.kind
  visible : mark.kind ≠ .newline

/-- A token of a separating kind is a separating character. -/
theorem Token.IsLexed.isSeparator
    {token : Token}
    (lexed : token.IsLexed)
    (separates : Lexer.separator? (Lexer.sign token.kind) = some token.kind)
    (visible : token.kind ≠ .newline) :
    token.IsSeparator (Lexer.sign token.kind) := by
  obtain ⟨_, _, _, _, _, isSign⟩ := Lexer.not_run_of_separator separates visible
  exact ⟨lexed.text_of_sign rfl isSign, separates, visible⟩

/-- The characters of tokens around a separating one are around its character. -/
theorem charactersOf_append
    {mark : Token}
    (separator : mark.IsSeparator character)
    (front back : List Token) :
    charactersOf (front ++ mark :: back) =
      charactersOf front ++ character :: charactersOf back := by
  simp [charactersOf, separator.text]

namespace Lexer

/-- A separating character is a token by itself, and cuts the tokens of a
text. -/
theorem tokens_append_of_separator
    {mark : Token}
    (separator : mark.IsSeparator character)
    (front back : List Char) :
    tokens (front ++ character :: back) =
      tokens front ++ mark :: tokens back := by
  obtain ⟨kind, text⟩ := mark
  obtain ⟨rfl, separates, visible⟩ := separator
  obtain ⟨_, _, noName, _, _, isSign⟩ :=
    not_run_of_separator separates visible
  exact tokens_append_of_punctuation isSign front back fun _ => noName

/-- The tokens before and after a separating character are those of the texts
before and after it. -/
theorem tokens_of_cut
    {mark : Token}
    (cut : tokens characters = front ++ mark :: back)
    (separator : mark.IsSeparator character) :
    tokens (charactersOf front) = front ∧ tokens (charactersOf back) = back := by
  have whole : charactersOf front ++ character :: charactersOf back =
      characters := by
    rw [← charactersOf_append separator, ← cut]
    exact flatMap_text_tokens characters
  have again := tokens_append_of_separator separator (charactersOf front)
    (charactersOf back)
  rw [whole, cut] at again
  have parts := eq_of_charactersOf again
    (flatMap_text_tokens (charactersOf front)).symm (by
      rw [← cut]
      intro token member empty
      exact text_ne_empty_of_mem_tokens characters token member
        (String.toList_eq_nil_iff.mp empty))
  exact ⟨parts.1.symm, (List.cons.inj parts.2).2.symm⟩

end Lexer

end Markup
end NotePress
