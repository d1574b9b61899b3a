import NotePress.Document.Reading
import NotePress.Proofs.Markup.Layout
import NotePress.Proofs.Markup.Tokens
import NotePress.Proofs.Text.Trimming

/-!
# Plain text

Characters that start no construct and end no line become blanks and words, and
these are kept as they are wherever they stand: none of them starts an element,
and the reader puts them together to one text.
-/

namespace NotePress
namespace Markup

/-- Whether tokens of a kind are kept as they are wherever they stand. -/
def Kind.isWord : Kind → Bool
  | whitespace | text | hash => true
  | _ => false

/-- Tokens that are kept as they are wherever they stand. -/
def AreWords (tokens : List Token) : Prop :=
  ∀ token ∈ tokens, token.kind.isWord = true

/-- The kind of the last of some tokens, given that of the token before them. -/
def lastKindOf
    (previous : Kind)
    (tokens : List Token) : Kind :=
  tokens.getLast?.elim previous Token.kind

theorem lastKindOf_cons
    (previous : Kind)
    (first : Token)
    (others : List Token) :
    lastKindOf previous (first :: others) = lastKindOf first.kind others := by
  rw [lastKindOf, lastKindOf, List.getLast?_cons]
  cases others.getLast? <;> rfl

namespace Lexer

/-- Whether a character is plain text wherever it stands on a line. -/
def isOrdinary (character : Char) : Bool :=
  character != '\n' && character != '#' && character != '@' &&
    (punctuation? character).isNone

theorem isOrdinary_of_isPlain (plain : isPlain character = true) :
    isOrdinary character = true := by
  simp only [isPlain, Bool.not_eq_true', Bool.or_eq_false_iff] at plain
  obtain ⟨⟨⟨visible, noHash⟩, noMention⟩, unpunctuated⟩ := plain
  have noFeed : character ≠ '\n' := by
    rintro rfl
    exact absurd visible (by decide)
  simp_all [isOrdinary]

theorem nextToken_of_isSpacing
    (spacing : Text.isSpacing first = true)
    (rest : List Char) :
    nextToken first rest =
      takeRun .whitespace Text.isSpacing first rest :=
  if_pos spacing

theorem nextToken_of_isPlain
    (plain : isPlain first = true)
    (rest : List Char) :
    nextToken first rest = takeRun .text isPlain first rest := by
  have whole := plain
  simp only [isPlain, Bool.not_eq_true', Bool.or_eq_false_iff,
    beq_eq_false_iff_ne] at plain
  obtain ⟨⟨⟨visible, noHash⟩, noMention⟩, unpunctuated⟩ := plain
  have notBlank (blank : Char) (isBlank : Text.isBlank blank = true) :
      first ≠ blank := by
    rintro rfl
    rw [isBlank] at visible
    cases visible
  have noSpacing : Text.isSpacing first = false := by
    simp [Text.isSpacing, notBlank ' ' rfl, notBlank '\t' rfl]
  have nothing : punctuation? first = none := by
    simpa using unpunctuated
  simp [nextToken, noSpacing, notBlank '\n' rfl, notBlank '\r' rfl, noHash,
    noMention, nothing, whole]

/-- The first token of plain text is a blank or a word. -/
theorem kind_nextToken_of_isOrdinary
    (ordinary : isOrdinary first = true)
    (noFeed : '\n' ∉ rest) :
    (nextToken first rest).1.kind.isWord = true := by
  simp only [isOrdinary, Bool.and_eq_true, bne_iff_ne, ne_eq,
    Option.isNone_iff_eq_none] at ordinary
  obtain ⟨⟨⟨notFeed, noHash⟩, noMention⟩, unpunctuated⟩ := ordinary
  unfold nextToken takeRun
  rw [if_neg notFeed, if_neg noHash, if_neg noMention, unpunctuated]
  split
  · rfl
  split
  · split
    · exact absurd List.mem_cons_self noFeed
    · rfl
  · simp only
    split <;> rfl

/-- Plain text is blanks and words. -/
theorem areWords_tokens
    (ordinary : ∀ character ∈ characters, isOrdinary character = true) :
    AreWords (tokens characters) := by
  induction characters using tokens.induct with
  | case1 =>
      rw [tokens]
      intro token member
      cases member
  | case2 first rest inductionHypothesis =>
      have noFeed : '\n' ∉ rest := fun feed =>
        absurd (ordinary '\n' (List.mem_cons_of_mem first feed)) (by decide)
      have later := inductionHypothesis fun character member =>
        ordinary character ((suffix_nextToken first rest).subset member)
      rw [tokens]
      intro token member
      rcases List.mem_cons.mp member with rfl | inside
      · exact kind_nextToken_of_isOrdinary (ordinary first List.mem_cons_self)
          noFeed
      · exact later token inside

theorem not_isPlain_of_isSpacing (spacing : Text.isSpacing character = true) :
    isPlain character = false := by
  simp [isPlain, isBlank_of_isSpacing spacing]

/-- Words and blanks that end with a blank end with a token that is one. -/
theorem lastKindOf_tokens_of_isSpacing
    (words :
      ∀ character ∈ characters,
        isPlain character = true ∨ Text.isSpacing character = true)
    (isLast : characters.getLast? = some last)
    (spacing : Text.isSpacing last = true)
    (previous : Kind) :
    lastKindOf previous (tokens characters) = .whitespace := by
  induction characters using tokens.induct generalizing previous with
  | case1 => cases isLast
  | case2 first rest inductionHypothesis =>
      obtain ⟨text, whole⟩ := suffix_nextToken first rest
      rw [tokens, lastKindOf_cons]
      cases left : (nextToken first rest).2 with
      | cons second others =>
          rw [left] at inductionHypothesis whole
          apply inductionHypothesis
          · intro character member
            apply words
            rw [← whole]
            exact List.mem_append_right text member
          · rw [← whole, List.getLast?_append, List.getLast?_cons] at isLast
            rwa [List.getLast?_cons]
      | nil =>
          rw [tokens]
          rcases words first List.mem_cons_self with plain | blank
          · rw [nextToken_of_isPlain plain] at left
            have plains := List.dropWhile_eq_nil_iff.mp left
            have isPlain : isPlain last = true := by
              rcases List.mem_cons.mp (List.mem_of_getLast? isLast) with
                rfl | later
              · exact plain
              · exact plains last later
            rw [not_isPlain_of_isSpacing spacing] at isPlain
            cases isPlain
          · rw [nextToken_of_isSpacing blank]
            rfl

end Lexer

namespace Inline

/-- Words are elements of their own, whatever stands around them. -/
theorem Derives.words
    (words : AreWords tokens)
    (goesOn : ∀ kind : Kind, kind.isWord = true → stops kind = false)
    (derives : Derives stops (lastKindOf previous tokens) rest content last
      after) :
    Derives stops previous (tokens ++ rest) (tokens.map .ofToken ++ content)
      last after := by
  induction tokens generalizing previous with
  | nil => exact derives
  | cons token others inductionHypothesis =>
      rw [lastKindOf_cons] at derives
      have isWord := words token List.mem_cons_self
      have stopped : stopsAt stops (token :: (others ++ rest)) = false := by
        rw [stopsAt, goesOn token.kind isWord, Bool.or_false,
          beq_eq_false_iff_ne]
        intro newline
        rw [newline] at isWord
        cases isWord
      have unstyled : token.kind.style? = none := by
        revert isWord
        cases token.kind <;> decide
      have bare : token.kind ∉ starters := by
        revert isWord
        cases token.kind <;> decide
      exact .atom stopped unstyled (.bare bare)
        (inductionHypothesis
          (fun other member => words other (List.mem_cons_of_mem token member))
          derives)

end Inline

/-- A source that is one paragraph. -/
theorem parseTokens_of_lines
    (visible : Line.atVisible tokens = true)
    (lines : Parse.Lines tokens elements []) :
    parseTokens tokens = .node .root [.node .paragraph elements] := by
  rw [parseTokens, (Parse.Layout.paragraph visible lines .nil).eq_sections]

/-- A source that is one line. -/
theorem parseTokens_of_block
    (visible : Line.atVisible tokens = true)
    (block : Line.Block tokens elements []) :
    parseTokens tokens = .node .root [.node .paragraph elements] :=
  parseTokens_of_lines visible (.last block rfl)

theorem atVisible_of_startsVisibly
    (visible : Inline.startsVisibly tokens = true) :
    Line.atVisible tokens = true := by
  cases tokens with
  | nil => cases visible
  | cons first others =>
      simp only [Inline.startsVisibly, Bool.and_eq_true, bne_iff_ne] at visible
      simp [Line.atVisible, Parse.atBlankLine, visible]

theorem AreWords.onLine (words : AreWords tokens) : OnLine tokens := by
  intro token member newline
  have isWord := words token member
  rw [newline] at isWord
  cases isWord

end Markup

namespace Document
namespace Reading

open Markup

/-- Words are read as one text together with the text before them. -/
theorem blocksOf_words
    (words : AreWords tokens)
    (text : String)
    (others : List Element) :
    blocksOf text (tokens.map .ofToken ++ others) =
      blocksOf (text ++ String.join (tokens.map Token.text)) others := by
  induction tokens generalizing text with
  | nil => simp
  | cons token rest inductionHypothesis =>
      have isWord := words token List.mem_cons_self
      have content : token.kind.isMarkup = false := by
        revert isWord
        cases token.kind <;> decide
      rw [List.map_cons, List.cons_append, Element.ofToken, blocksOf, content,
        if_neg Bool.false_ne_true, inductionHypothesis fun other member =>
          words other (List.mem_cons_of_mem token member)]
      rw [List.map_cons, String.join_cons, String.append_assoc]

/-- Markup at the end is dropped. -/
theorem blocksOf_append_markup
    {kind : Kind}
    (isMarkup : kind.isMarkup = true)
    (elements : List Element)
    (text more : String) :
    blocksOf text (elements ++ [.leaf kind more]) = blocksOf text elements := by
  induction elements generalizing text with
  | nil => rw [List.nil_append, blocksOf, blocksOf, if_pos isMarkup, blocksOf]
  | cons first others inductionHypothesis =>
      cases first with
      | leaf _ _ => rw [List.cons_append, blocksOf, inductionHypothesis, blocksOf]
      | node _ _ => rw [List.cons_append, blocksOf, inductionHypothesis, blocksOf]

/-- A text before a node is a block of its own. -/
theorem blocksOf_node
    (read : blocksOf "" (.node kind children :: others) = .ok blocks)
    (text : String) :
    blocksOf text (.node kind children :: others) =
      .ok (withText text blocks) := by
  rw [blocksOf] at read ⊢
  split at read
  · cases read
  · split at read
    · cases read
    · cases read
      rfl

theorem trimFirst_eq
    (starts : ∀ text, blocks.head? = some (.text text) →
      text ≠ "" ∧ Text.StartsVisibly text) :
    trimFirst blocks = blocks := by
  unfold trimFirst
  split
  · rename_i text others
    obtain ⟨nonempty, visible⟩ := starts text rfl
    rw [visible.trimStart_eq, withText, if_neg (by simpa using nonempty)]
  · rfl

theorem trimLast_eq
    (finish : ∀ text, blocks.getLast? = some (.text text) →
      text ≠ "" ∧ Text.EndsVisibly text) :
    trimLast blocks = blocks := by
  induction blocks using trimLast.induct with
  | case1 => rw [trimLast]
  | case2 text =>
      obtain ⟨nonempty, visible⟩ := finish text rfl
      rw [trimLast, visible.trimEnd_eq, withText,
        if_neg (by simpa using nonempty)]
  | case3 block notText =>
      rw [trimLast]
      exact notText
  | case4 first second others inductionHypothesis =>
      rw [trimLast, inductionHypothesis fun text isLast => finish text <| by
        rw [List.getLast?_cons_cons]
        exact isLast]

/-- Blocks that neither start nor end with a blank stay as they are. -/
theorem trimBlocks_eq
    (starts : ∀ text, blocks.head? = some (.text text) →
      text ≠ "" ∧ Text.StartsVisibly text)
    (finish : ∀ text, blocks.getLast? = some (.text text) →
      text ≠ "" ∧ Text.EndsVisibly text) :
    trimBlocks blocks = blocks := by
  rw [trimBlocks, trimLast_eq finish, trimFirst_eq starts]

/-- The document of one paragraph is what that is read as. -/
theorem ofTree_paragraph_eq (elements : List Element) :
    ofTree (.node .root [.node .paragraph elements]) =
      (blocksOf "" elements).map fun blocks => [trimBlocks blocks] := by
  rw [ofTree, Element.children, paragraphsOf, if_pos rfl, paragraphsOf]
  cases blocksOf "" elements <;> rfl

theorem ofTree_paragraph
    (read : blocksOf "" elements = .ok blocks) :
    ofTree (.node .root [.node .paragraph elements]) =
      .ok [trimBlocks blocks] := by
  rw [ofTree_paragraph_eq, read]
  rfl

/-- A source that is a single element, and that no styling delimiter starts, is
read as the block of that element. -/
theorem ofSource_of_atom
    (tokens : lex source = first :: rest)
    (starter : first.kind ∈ Inline.starters)
    (starts : Line.startsText (first :: rest) = true)
    (atom : Inline.Atom first rest (.node kind children) last []) :
    ofSource source =
      (blockOf kind children).map fun block => [trimBlocks [block]] := by
  have unstyled : first.kind.style? = none := by
    revert starter
    cases first.kind <;> decide
  have visible : first.kind ≠ .newline ∧ first.kind ≠ .whitespace := by
    revert starter
    cases first.kind <;> decide
  have stopped : Inline.stopsAt (fun _ => false) (first :: rest) = false := by
    simp [Inline.stopsAt, visible]
  have onLine : Line.atVisible (first :: rest) = true := by
    simp [Line.atVisible, Parse.atBlankLine, visible]
  have block := Line.Block.text starts
    (.atom stopped unstyled atom (.done rfl)) .missing
  rw [ofSource, parse, tokens, parseTokens_of_block onLine block,
    ofTree_paragraph_eq, List.append_nil, blocksOf, blocksOf]
  cases blockOf kind children <;> rfl

end Reading
end Document
end NotePress
