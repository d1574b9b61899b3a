import NotePress.Proofs.Document.PlainText
import NotePress.Proofs.Document.WellFormed

/-!
# Written hashtags

A hashtag is written as its name and, in braces and with bars between them, its
parameters. Nothing that a source can put into a hashtag ends the list early or
splits a parameter, so a hashtag is read back from its written form. One written
form is no hashtag: that of a single empty parameter, which a source writes as a
blank between braces, but whose braces are empty when it is written again
(`ofSource_sourceText_of_mem`).
-/

namespace NotePress
namespace Document

open Markup Reading

variable {tag : Hashtag}

namespace Hashtag

/-! ## The text between the braces -/

/-- The parameters with bars between them. -/
def inside (tag : Hashtag) : String :=
  "|".intercalate tag.parameters

theorem toList_inside (tag : Hashtag) :
    tag.inside.toList = ['|'].intercalate (tag.parameters.map String.toList) :=
  String.toList_intercalate

theorem mem_of_mem_intercalate
    {parts : List (List Char)}
    (member : character ∈ [bar].intercalate parts) :
    character = bar ∨ ∃ part ∈ parts, character ∈ part := by
  induction parts with
  | nil => cases member
  | cons first others inductionHypothesis =>
      by_cases single : others = []
      · subst single
        rw [List.intercalate_singleton] at member
        exact .inr ⟨first, List.mem_cons_self, member⟩
      · rw [List.intercalate_cons_of_ne_nil single, List.mem_append,
          List.mem_append, List.mem_singleton] at member
        rcases member with (here | isBar) | later
        · exact .inr ⟨first, List.mem_cons_self, here⟩
        · exact .inl isBar
        · refine (inductionHypothesis later).imp id ?_
          rintro ⟨part, isPart, occurs⟩
          exact ⟨part, List.mem_cons_of_mem first isPart, occurs⟩

/-- What no parameter holds is not between the braces. -/
theorem notMem_inside
    (absent : ∀ parameter ∈ tag.parameters, character ∉ parameter.toList)
    (notBar : character ≠ '|') :
    character ∉ tag.inside.toList := by
  rw [toList_inside]
  intro member
  rcases mem_of_mem_intercalate member with isBar | ⟨part, isPart, occurs⟩
  · exact notBar isBar
  · obtain ⟨parameter, isParameter, rfl⟩ := List.mem_map.mp isPart
    exact absent parameter isParameter occurs

/-- Parameters are told apart by the bars between them. -/
theorem parametersOf_inside
    (wellFormed : tag.IsWellFormed)
    (listed : tag.parameters ≠ []) :
    parametersOf tag.inside.toList = tag.parameters := by
  have clean : ∀ part ∈ tag.parameters.map String.toList, '|' ∉ part := by
    intro part isPart bar
    obtain ⟨parameter, isParameter, rfl⟩ := List.mem_map.mp isPart
    exact (wellFormed.clean parameter isParameter '|' bar).1 rfl
  have parts :
      Text.splitAt '|' tag.inside.toList = tag.parameters.map String.toList := by
    rw [Text.splitAt_eq_splitOn, toList_inside]
    exact List.splitOn_intercalate '|' clean (by simpa using listed)
  rw [parametersOf, parts, List.map_map]
  refine (List.map_congr_left fun parameter isParameter => ?_).trans
    (List.map_id tag.parameters)
  obtain ⟨starts, ends⟩ := wellFormed.trimmed parameter isParameter
  exact starts.trim_eq ends

/-- There is nothing between the braces exactly when there is one parameter, and
that is empty. -/
theorem inside_eq_empty_iff
    (wellFormed : tag.IsWellFormed)
    (listed : tag.parameters ≠ []) :
    tag.inside.toList = [] ↔ tag.parameters = [""] := by
  constructor
  · -- What is read back from nothing is one empty parameter.
    intro empty
    rw [← parametersOf_inside wellFormed listed, empty]
    rfl
  · intro single
    rw [toList_inside, single]
    rfl

theorem inside_clean (wellFormed : tag.IsWellFormed) :
    '\n' ∉ tag.inside.toList ∧ '\x7d' ∉ tag.inside.toList :=
  ⟨notMem_inside (fun parameter isParameter feed =>
      (wellFormed.clean parameter isParameter '\n' feed).2.2 rfl) (by decide),
    notMem_inside (fun parameter isParameter brace =>
      (wellFormed.clean parameter isParameter '\x7d' brace).2.1 rfl) (by decide)⟩

/-! ## Reading the written form -/

theorem toList_name_ne_nil (wellFormed : tag.IsWellFormed) :
    tag.name.toList ≠ [] :=
  mt String.toList_eq_nil_iff.mp wellFormed.named

theorem toList_sourceText_nil (unlisted : tag.parameters = []) :
    tag.sourceText.toList = '#' :: tag.name.toList := by
  rw [sourceText, unlisted, List.isEmpty_nil, if_pos rfl, String.toList_append]
  rfl

theorem toList_sourceText (listed : tag.parameters ≠ []) :
    tag.sourceText.toList =
      '#' :: (tag.name.toList ++ '\x7b' :: (tag.inside.toList ++ ['\x7d'])) := by
  rw [sourceText, List.isEmpty_eq_false_iff.mpr listed,
    if_neg Bool.false_ne_true, ← inside]
  simp

/-- The written form of a hashtag stands for the hashtag, unless its list is a
single empty parameter. -/
theorem ofSource_toList_sourceText (wellFormed : tag.IsWellFormed) :
    ofSource? tag.sourceText.toList =
      if tag.parameters = [""] then none else some tag := by
  have letters : ∀ character ∈ tag.name.toList,
      Lexer.isTagLetter character = true := wellFormed.letters
  by_cases listed : tag.parameters = []
  · rw [toList_sourceText_nil listed,
      ofSource_name (toList_name_ne_nil wellFormed) letters, listed,
      if_neg (by decide), String.ofList_toList, ← listed]
  · obtain ⟨noFeed, _⟩ := inside_clean wellFormed
    rw [toList_sourceText listed,
      ofSource_list (toList_name_ne_nil wellFormed) letters, stripLast_concat,
      Option.bind_some]
    simp only [List.contains_eq_mem, noFeed, decide_false, Bool.or_false,
      List.isEmpty_iff, inside_eq_empty_iff wellFormed listed,
      parametersOf_inside wellFormed listed, String.ofList_toList]

/-! ## Parsing the written form -/

/-- How the written form of a hashtag is parsed: as a single element, whatever
but a brace stands after it, and one that has its text. -/
structure IsParsedAs
    (tag : Hashtag)
    (name : Token)
    (rest : List Token)
    (children : List Element)
    (last : Kind) : Prop where
  tokens : lex tag.sourceText = name :: rest
  isName : name.kind = .hashtagName
  text : (Element.node .hashtag children).text = tag.sourceText
  atom :
    ∀ after, Line.startsWith .leftBrace after = false →
      Inline.Atom name (rest ++ after) (.node .hashtag children) last after

/-- The token that the name of a hashtag is. -/
def nameToken (tag : Hashtag) : Token :=
  ⟨.hashtagName, "#" ++ tag.name⟩

/-- The brace that opens a parameter list. -/
def openingBrace : Token :=
  ⟨.leftBrace, "\x7b"⟩

/-- The brace that closes a parameter list. -/
def closingBrace : Token :=
  ⟨.rightBrace, "\x7d"⟩

theorem tokens_name (wellFormed : tag.IsWellFormed) :
    Lexer.tokens ('#' :: tag.name.toList) = [tag.nameToken] := by
  have letters : ∀ character ∈ tag.name.toList,
      Lexer.isTagLetter character = true := wellFormed.letters
  have taken := List.takeWhile_eq_self_iff.mpr letters
  have left := List.dropWhile_eq_nil_iff.mpr letters
  have isRun : Lexer.nextToken '#' tag.name.toList =
      Lexer.takeRun .hashtagName Lexer.isTagLetter '#' tag.name.toList := by
    obtain ⟨first, others, whole⟩ :=
      List.exists_cons_of_ne_nil (toList_name_ne_nil wellFormed)
    unfold Lexer.nextToken
    rw [taken, whole]
    rfl
  have text : String.ofList ('#' :: tag.name.toList) = "#" ++ tag.name := by
    apply String.toList_injective
    rw [String.toList_ofList, String.toList_append]
    rfl
  rw [Lexer.tokens, isRun, Lexer.takeRun, taken, left, text, Lexer.tokens,
    nameToken]

/-- A list in braces is lexed apart from the name before it. -/
theorem lex_sourceText
    (wellFormed : tag.IsWellFormed)
    (listed : tag.parameters ≠ []) :
    lex tag.sourceText =
      tag.nameToken :: openingBrace :: (lex tag.inside ++ [closingBrace]) := by
  have opens : Lexer.punctuation? '\x7b' = some .leftBrace := rfl
  have closes : Lexer.punctuation? '\x7d' = some .rightBrace := rfl
  rw [lex, toList_sourceText listed, ← List.cons_append,
    Lexer.tokens_append_of_punctuation opens _ _ fun _ => by decide,
    Lexer.tokens_append_of_punctuation closes _ _ fun _ => by decide,
    tokens_name wellFormed, Lexer.tokens, lex]
  rfl

theorem isParsedAs_name
    (wellFormed : tag.IsWellFormed)
    (unlisted : tag.parameters = []) :
    tag.IsParsedAs tag.nameToken [] [.ofToken tag.nameToken] .hashtagName := by
  have written := toList_sourceText_nil unlisted
  refine ⟨?_, rfl, ?_, fun after noBrace => .tag rfl noBrace⟩
  · rw [lex, written, tokens_name wellFormed]
  · apply String.toList_injective
    rw [toList_text, written]
    simp [Element.leavesOf, Element.ofToken, Element.leaves, nameToken]

theorem isParsedAs_list
    (wellFormed : tag.IsWellFormed)
    (listed : tag.parameters ≠ []) :
    tag.IsParsedAs tag.nameToken
      (openingBrace :: (lex tag.inside ++ [closingBrace]))
      [.ofToken tag.nameToken,
        .node .parameters
          (.ofDelimiter openingBrace :: (lex tag.inside).map .ofToken ++
            [.ofDelimiter closingBrace])]
      .rightBrace := by
  refine ⟨lex_sourceText wellFormed listed, rfl, ?_, fun after _ => ?_⟩
  · apply String.toList_injective
    rw [toList_text_hashtag, toList_text_closedList, spelled, lex,
      Lexer.flatMap_text_tokens, toList_sourceText listed]
    simp [nameToken, openingBrace, closingBrace]
  · have parameters :
        ∀ part ∈ lex tag.inside, Inline.isParameter part = true := by
      intro part member
      obtain ⟨noFeed, noBrace⟩ := inside_clean wellFormed
      have visible := ne_newline_of_mem_lex noFeed member
      have unclosed : part.kind ≠ .rightBrace :=
        ne_kind_of_mem_lex rfl noBrace member
      simp [Inline.isParameter, visible, unclosed]
    rw [List.cons_append, List.append_assoc, List.singleton_append,
      ← List.cons_append]
    exact .call rfl rfl parameters rfl

theorem exists_isParsedAs (wellFormed : tag.IsWellFormed) :
    ∃ name rest children last, tag.IsParsedAs name rest children last := by
  by_cases unlisted : tag.parameters = []
  · exact ⟨_, _, _, _, isParsedAs_name wellFormed unlisted⟩
  · exact ⟨_, _, _, _, isParsedAs_list wellFormed unlisted⟩

theorem hashtag_sourceText (wellFormed : tag.IsWellFormed) :
    hashtag tag.sourceText =
      if tag.parameters = [""] then .error (.directive tag.sourceText)
      else .ok tag := by
  rw [hashtag, ofSource_toList_sourceText wellFormed]
  split_ifs <;> rfl

end Hashtag

/-- The written form of a hashtag is read as one block, or refused. -/
theorem ofSource_sourceText (wellFormed : tag.IsWellFormed) :
    ofSource tag.sourceText =
      (hashtag tag.sourceText).map fun read => [[.hashtag read]] := by
  obtain ⟨name, rest, children, last, parsed⟩ :=
    Hashtag.exists_isParsedAs wellFormed
  have isName := parsed.isName
  have starts : Line.startsText (name :: rest) = true := by
    rw [Line.startsText, isName]
  have atom := parsed.atom [] rfl
  rw [List.append_nil] at atom
  rw [ofSource_of_atom parsed.tokens (by rw [isName]; decide) starts atom,
    blockOf, parsed.text]
  cases hashtag tag.sourceText <;> rfl

/-- The hashtag that a block is. -/
def Block.hashtag? : Block → Option Hashtag
  | .hashtag tag => some tag
  | _ => none

/-- The hashtags of a document, at every depth. -/
def hashtags (document : Document) : List Hashtag :=
  (subblocksOfGroups document).filterMap Block.hashtag?

theorem mem_hashtags :
    tag ∈ hashtags document ↔ .hashtag tag ∈ subblocksOfGroups document := by
  rw [hashtags, List.mem_filterMap]
  constructor
  · rintro ⟨block, member, isTag⟩
    cases block with
    | hashtag own =>
        cases isTag
        exact member
    | _ => cases isTag
  · exact fun member => ⟨_, member, rfl⟩

/-- A hashtag of a document is read back from its written form, unless its list
is a single empty parameter: then the written form is refused. -/
theorem ofSource_sourceText_of_mem
    (read : ofSource source = .ok document)
    (member : tag ∈ hashtags document) :
    ofSource tag.sourceText =
      if tag.parameters = [""] then .error (.directive tag.sourceText)
      else .ok [[.hashtag tag]] := by
  have wellFormed : tag.IsWellFormed :=
    (isWellFormed_paragraphsOf (grown_parse source) read).blocks _
      (mem_hashtags.mp member)
  rw [ofSource_sourceText wellFormed, Hashtag.hashtag_sourceText wellFormed]
  split_ifs <;> rfl

/-- A blank between braces is an empty parameter, which is written without the
blank. An empty parameter among others is read back. -/
theorem ofSource_sourceText_of_mem_blank :
    ∃ document,
      ofSource "*#A\x7b \x7d* #B\x7b | b\x7d" = .ok document ∧
        hashtags document = [⟨"A", [""]⟩, ⟨"B", ["", "b"]⟩] ∧
        ofSource "#A\x7b\x7d" = .error (.directive "#A\x7b\x7d") ∧
        ofSource "#B\x7b|b\x7d" = .ok [[.hashtag ⟨"B", ["", "b"]⟩]] := by
  have tags : (ofSource "*#A\x7b \x7d* #B\x7b | b\x7d").map hashtags =
      .ok [⟨"A", [""]⟩, ⟨"B", ["", "b"]⟩] := by
    decide +kernel
  obtain ⟨document, read, held⟩ := ok_of_map tags
  have blank : ⟨"A", [""]⟩ ∈ hashtags document := by simp [held]
  have among : ⟨"B", ["", "b"]⟩ ∈ hashtags document := by simp [held]
  have refused := ofSource_sourceText_of_mem read blank
  have kept := ofSource_sourceText_of_mem read among
  rw [show Hashtag.sourceText ⟨"A", [""]⟩ = "#A\x7b\x7d" by decide +kernel,
    if_pos rfl] at refused
  rw [show Hashtag.sourceText ⟨"B", ["", "b"]⟩ = "#B\x7b|b\x7d" by
    decide +kernel, if_neg (by decide)] at kept
  exact ⟨document, read, held, refused, kept⟩

end Document
end NotePress
