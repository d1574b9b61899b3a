import NotePress.Page.Render
import NotePress.Proofs.Document.PlainText

/-!
# Headings

What hashes before a title are depends on how many they are. Up to six make a
heading of the page. Up to `maximalLevel` make a heading of the document, which no
page can have, so that rendering it fails. More are no heading in the first place:
the line is a text like any other (`renderDocument_headingSource`).
-/

namespace NotePress
namespace Markup

/-- The line of a heading: hashes, a space and the title. -/
def headingSource
    (level : Nat)
    (title : String) : String :=
  String.ofList (List.replicate level '#') ++ " " ++ title

theorem toList_headingSource (level : Nat) (title : String) :
    (headingSource level title).toList =
      List.replicate level '#' ++ ' ' :: title.toList := by
  simp [headingSource]

/-- Plain words without blanks around them. -/
structure IsTitle (title : String) : Prop where
  nonempty : title ≠ ""
  ordinary : ∀ character ∈ title.toList, Lexer.isOrdinary character = true
  starts : Text.StartsVisibly title
  ends : Text.EndsVisibly title

/-- A hash that starts no name. -/
def hashToken : Token :=
  ⟨.hash, "#"⟩

/-- A single space. -/
def spaceToken : Token :=
  ⟨.whitespace, " "⟩

theorem kind_of_mem_hashes
    (member : token ∈ List.replicate level hashToken) :
    token.kind = .hash := by
  rw [List.eq_of_mem_replicate member]
  rfl

namespace Lexer

/-- Hashes before something else than a name are tokens of their own. -/
theorem tokens_hashes
    (apart :
      ∀ first, following.head? = some first → isTagLetter first = false)
    (level : Nat) :
    tokens (List.replicate level '#' ++ following) =
      List.replicate level hashToken ++ tokens following := by
  induction level with
  | zero => rfl
  | succ level inductionHypothesis =>
      have noName : (List.replicate level '#' ++ following).takeWhile
          isTagLetter = [] := by
        cases level with
        | zero =>
            cases following with
            | nil => rfl
            | cons first rest =>
                exact List.takeWhile_cons_of_neg (by simp [apart first rfl])
        | succ _ => rfl
      rw [List.replicate_succ, List.cons_append, tokens]
      have first : nextToken '#' (List.replicate level '#' ++ following) =
          (hashToken, List.replicate level '#' ++ following) := by
        unfold nextToken
        rw [noName]
        rfl
      rw [first, inductionHypothesis]
      rfl

/-- A space before something visible is a token of its own. -/
theorem tokens_space
    (visible :
      ∀ first, following.head? = some first → Text.isBlank first = false) :
    tokens (' ' :: following) = spaceToken :: tokens following := by
  have alone : nextToken ' ' following = (spaceToken, following) := by
    rw [nextToken_of_isSpacing rfl]
    cases following with
    | nil => rfl
    | cons first rest =>
        have notBlank := visible first rfl
        have noSpacing : ¬ Text.isSpacing first = true := fun spacing => by
          rw [isBlank_of_isSpacing spacing] at notBlank
          cases notBlank
        rw [takeRun, List.takeWhile_cons_of_neg noSpacing,
          List.dropWhile_cons_of_neg noSpacing]
        rfl
  rw [tokens, alone]

end Lexer

theorem lex_headingSource
    (starts : Text.StartsVisibly title)
    (level : Nat) :
    lex (headingSource level title) =
      List.replicate level hashToken ++ spaceToken :: lex title := by
  rw [lex, toList_headingSource, Lexer.tokens_hashes,
    Lexer.tokens_space starts, lex]
  rintro _ ⟨⟩
  rfl

theorem areWords_lex (isTitle : IsTitle title) : AreWords (lex title) :=
  Lexer.areWords_tokens isTitle.ordinary

theorem areWords_headingSource
    (isTitle : IsTitle title)
    (level : Nat) :
    AreWords (lex (headingSource level title)) := by
  rw [lex_headingSource isTitle.starts]
  refine List.forall_mem_append.mpr ⟨?_, List.forall_mem_cons.mpr
    ⟨rfl, areWords_lex isTitle⟩⟩
  intro token member
  rw [kind_of_mem_hashes member]
  rfl

/-- Only a line with few hashes is a heading. -/
theorem headingLevel_hashes
    (positive : 0 < level)
    (following : List Token) :
    Line.headingLevel?
        (List.replicate level hashToken ++ spaceToken :: following) =
      if level ≤ Line.maximalLevel then some level else none := by
  have areHashes : ∀ token ∈ List.replicate level hashToken,
      (token.kind == .hash) = true :=
    fun _ member => beq_iff_eq.mpr (kind_of_mem_hashes member)
  have hashes :
      (List.replicate level hashToken ++ spaceToken :: following).takeWhile
        (·.kind == .hash) = List.replicate level hashToken := by
    rw [List.takeWhile_append_of_pos areHashes]
    exact List.append_nil _
  have rest :
      (List.replicate level hashToken ++ spaceToken :: following).dropWhile
        (·.kind == .hash) = spaceToken :: following :=
    List.dropWhile_append_of_pos areHashes
  rw [Line.headingLevel?, hashes, rest, List.length_replicate]
  simp [positive, Line.startsWith, spaceToken]

/-- Words that start nothing are a line by themselves. -/
theorem parseTokens_words
    (words : AreWords tokens)
    (visible : Line.atVisible tokens = true)
    (starts : Line.startsText tokens = true) :
    parseTokens tokens =
      .node .root [.node .paragraph (tokens.map .ofToken)] := by
  have derives : Inline.Derives (fun _ => false) .newline (tokens ++ [])
      (tokens.map .ofToken ++ []) _ [] :=
    .words words (fun _ _ => rfl) (.done rfl)
  rw [List.append_nil, List.append_nil] at derives
  have block := Line.Block.text starts derives .missing
  rw [List.append_nil] at block
  exact parseTokens_of_block visible block

/-- The elements of a heading. -/
def headingElements
    (level : Nat)
    (title : String) : List Element :=
  Line.glued .headingMarker (List.replicate level hashToken) ::
    .ofToken spaceToken :: (lex title).map .ofToken

theorem atVisible_headingSource
    (positive : 0 < level)
    (following : List Token) :
    Line.atVisible (List.replicate level hashToken ++ following) = true := by
  obtain ⟨fewer, rfl⟩ := Nat.exists_eq_add_one.mpr positive
  rfl

/-- Few hashes mark a heading. -/
theorem marker_hashes
    (positive : 0 < level)
    (few : level ≤ Line.maximalLevel)
    (following : List Token) :
    Line.Marker (List.replicate level hashToken ++ following) .heading
      (Line.glued .headingMarker (List.replicate level hashToken))
      following := by
  refine .heading ?_ ?_ fun _ => kind_of_mem_hashes
  · simpa using Nat.ne_of_gt positive
  · rwa [List.length_replicate]

/-- Few hashes make a heading. -/
theorem parse_headingSource
    (positive : 0 < level)
    (few : level ≤ Line.maximalLevel)
    (isTitle : IsTitle title) :
    parse (headingSource level title) =
      .node .root
        [.node .paragraph [.node .heading (headingElements level title)]] := by
  have marker := marker_hashes positive few (spaceToken :: lex title)
  have content : Inline.Derives (fun _ => false) .whitespace (lex title ++ [])
      ((lex title).map .ofToken ++ []) _ [] :=
    .words (areWords_lex isTitle) (fun _ _ => rfl) (.done rfl)
  rw [List.append_nil, List.append_nil] at content
  have block := Line.Block.marked marker rfl content .missing
  rw [List.append_nil] at block
  rw [parse, lex_headingSource isTitle.starts,
    parseTokens_of_block (atVisible_headingSource positive _) block]
  rfl

/-- Many hashes make no heading. -/
theorem parse_headingSource_of_many
    (many : Line.maximalLevel < level)
    (isTitle : IsTitle title) :
    parse (headingSource level title) =
      .node .root
        [.node .paragraph
          ((lex (headingSource level title)).map .ofToken)] := by
  have positive : 0 < level := Nat.zero_lt_of_lt many
  have words := areWords_headingSource isTitle level
  rw [lex_headingSource isTitle.starts] at words
  rw [parse, lex_headingSource isTitle.starts]
  apply parseTokens_words words (atVisible_headingSource positive _)
  have noLevel := headingLevel_hashes positive (lex title)
  rw [if_neg (Nat.not_le_of_lt many)] at noLevel
  obtain ⟨fewer, rfl⟩ := Nat.exists_eq_add_one.mpr positive
  rw [List.replicate_succ, List.cons_append] at noLevel ⊢
  change (Line.headingLevel? _).isNone = true
  rw [noLevel]
  rfl

end Markup

namespace Document

open Markup

/-- The level of a heading is the number of its hashes. -/
theorem headingLevel_glued
    (positive : 0 < level)
    (few : level ≤ Line.maximalLevel)
    (others : List Element) :
    Reading.headingLevel
        (Line.glued .headingMarker (List.replicate level hashToken) ::
          others) =
      .ok level := by
  have hashes : (Reading.markerText .headingMarker
      (Line.glued .headingMarker (List.replicate level hashToken) ::
        others)).toList = List.replicate level '#' := by
    rw [Line.glued, Reading.markerText, if_pos rfl, List.map_replicate]
    clear positive few
    induction level with
    | zero => rfl
    | succ level inductionHypothesis =>
        rw [List.replicate_succ, List.replicate_succ, String.join_cons,
          String.toList_append, inductionHypothesis]
        rfl
  rw [Reading.headingLevel, hashes]
  simp [Nat.ne_of_gt positive, few]

theorem endsVisibly_append
    (isTitle : IsTitle title)
    (before : String) :
    Text.EndsVisibly (before ++ title) := by
  have characters : title.toList ≠ [] :=
    mt String.toList_eq_nil_iff.mp isTitle.nonempty
  intro last isLast
  rw [String.toList_append] at isLast
  exact EndsIn.append isTitle.ends characters before.toList last isLast

/-- The space before a title is dropped. -/
theorem trimBlocks_title (isTitle : IsTitle title) :
    Reading.trimBlocks [.text (" " ++ title)] = [.text title] := by
  have dropped : Text.trimStart (" " ++ title) = title := by
    apply String.toList_injective
    have alone := congrArg String.toList isTitle.starts.trimStart_eq
    rw [Text.toList_trimStart] at alone
    rw [Text.toList_trimStart, String.toList_append]
    exact alone
  rw [Reading.trimBlocks, Reading.trimLast,
    (endsVisibly_append isTitle " ").trimEnd_eq, Reading.withText,
    if_neg (by simp [isTitle.nonempty]), Reading.trimFirst, dropped,
    Reading.withText, if_neg (by simp [isTitle.nonempty])]

/-- Few hashes before a title are read as a heading. -/
theorem ofSource_headingSource
    (positive : 0 < level)
    (few : level ≤ Line.maximalLevel)
    (isTitle : IsTitle title) :
    ofSource (headingSource level title) =
      .ok [[.heading level [.text title]]] := by
  have content : Reading.blocksOf "" (headingElements level title) =
      .ok [.text (" " ++ title)] := by
    have words := Reading.blocksOf_words (areWords_lex isTitle) " " []
    rw [List.append_nil, join_text_lex, Reading.blocksOf, Reading.withText,
      if_neg (by simp [isTitle.nonempty])] at words
    rw [headingElements, Line.glued, Reading.blocksOf, Element.ofToken,
      Reading.blocksOf]
    exact words
  have read : Reading.blocksOf ""
      [.node .heading (headingElements level title)] =
        .ok [.heading level [.text title]] := by
    rw [Reading.blocksOf, Reading.blockOf, headingElements,
      headingLevel_glued positive few, ← headingElements, content,
      Reading.blocksOf]
    exact congrArg (fun blocks => Except.ok [Block.heading level blocks])
      (trimBlocks_title isTitle)
  rw [ofSource, parse_headingSource positive few isTitle,
    Reading.ofTree_paragraph read]
  rfl

/-- Many hashes before a title are read as a text. -/
theorem ofSource_headingSource_of_many
    (many : Line.maximalLevel < level)
    (isTitle : IsTitle title) :
    ofSource (headingSource level title) =
      .ok [[.text (headingSource level title)]] := by
  obtain ⟨fewer, hashes⟩ : ∃ fewer,
      List.replicate level '#' = '#' :: List.replicate fewer '#' :=
    ⟨level - 1, by
      rw [← List.replicate_succ, Nat.sub_add_cancel (Nat.zero_lt_of_lt many)]⟩
  have nonempty : headingSource level title ≠ "" := by
    rintro empty
    have characters := toList_headingSource level title
    rw [empty, hashes] at characters
    cases characters
  have read : Reading.blocksOf ""
      ((lex (headingSource level title)).map .ofToken) =
        .ok [.text (headingSource level title)] := by
    have words :=
      Reading.blocksOf_words (areWords_headingSource isTitle level) "" []
    rw [List.append_nil, join_text_lex, String.empty_append, Reading.blocksOf,
      Reading.withText, if_neg (by simpa using nonempty)] at words
    exact words
  rw [ofSource, parse_headingSource_of_many many isTitle,
    Reading.ofTree_paragraph read, Reading.trimBlocks_eq]
  · rintro _ ⟨⟩
    refine ⟨nonempty, fun first isFirst => ?_⟩
    rw [toList_headingSource, hashes] at isFirst
    cases isFirst
    rfl
  · rintro _ ⟨⟩
    exact ⟨nonempty, endsVisibly_append isTitle _⟩

end Document

namespace Page

open Html (Piece)
open Document (Block)
open Markup (IsTitle headingSource)

section

variable
  (environment : Environment)
  (context : Context)
  (session : Session)

theorem renderDocument_text (text : String) :
    let outcome := renderDocument environment context [[.text text]] session
    outcome.failure = none ∧
      Html.print outcome.html = "<p>" ++ Html.escape text ++ "</p>\n\n" := by
  have pieces : Html.print
      [.opening .paragraph [], .text text, .closing .paragraph,
        .constant "\n\n"] = "<p>" ++ Html.escape text ++ "</p>\n\n" := by
    apply String.toList_injective
    simp [Html.print, Piece.print, Piece.fragments, Html.Tag.name,
      Html.Fragment.text]
  simp [renderDocument, renderParagraphs, renderParagraph, wrapped,
    renderBlocks, renderBlock, Outcome.andThen, Outcome.emit, Outcome.done,
    pieces]

theorem renderDocument_heading
    (positive : 0 < level)
    (few : level ≤ 6)
    (title : String) :
    let outcome := renderDocument environment context
      [[.heading level [.text title]]] session
    outcome.failure = none ∧
      Html.print outcome.html =
        "<p><h" ++ toString level ++ ">" ++ Html.escape title ++ "</h" ++
          toString level ++ "></p>\n\n" := by
  have pieces : Html.print
      [.opening .paragraph [], .opening (.heading level) [], .text title,
        .closing (.heading level), .closing .paragraph, .constant "\n\n"] =
      "<p><h" ++ toString level ++ ">" ++ Html.escape title ++ "</h" ++
        toString level ++ "></p>\n\n" := by
    apply String.toList_injective
    simp [Html.print, Piece.print, Piece.fragments, Html.Tag.name,
      Html.Fragment.text]
  simpa [renderDocument, renderParagraphs, renderParagraph, wrapped,
    renderBlocks, renderBlock, Outcome.andThen, Outcome.emit, Outcome.done,
    few, Nat.succ_le_of_lt positive] using pieces

theorem renderDocument_heading_of_many
    (many : 6 < level)
    (blocks : List Block) :
    let outcome := renderDocument environment context
      [[.heading level blocks]] session
    outcome.failure = some (.invalidHeadingLevel level) ∧
      Html.print outcome.html = "<p>" := by
  have piece : Html.print [.opening .paragraph []] = "<p>" := by decide
  simpa [renderDocument, renderParagraphs, renderParagraph, wrapped,
    renderBlocks, renderBlock, Outcome.andThen, Outcome.emit, Outcome.fail,
    Nat.not_le_of_lt many] using piece

end

/-- A title after one to six hashes is written as a heading, one after up to 255
hashes is an error, and one after more hashes is written as it is. -/
theorem renderDocument_headingSource
    (positive : 0 < level)
    (isTitle : IsTitle title)
    (environment : Environment)
    (context : Context)
    (session : Session) :
    ∃ document,
      Document.ofSource (headingSource level title) = .ok document ∧
        let outcome := renderDocument environment context document session
        (level ≤ 6 →
          outcome.failure = none ∧
            Html.print outcome.html =
              "<p><h" ++ toString level ++ ">" ++ Html.escape title ++ "</h" ++
                toString level ++ "></p>\n\n") ∧
        (6 < level → level ≤ 255 →
          outcome.failure = some (.invalidHeadingLevel level) ∧
            Html.print outcome.html = "<p>") ∧
        (255 < level →
          outcome.failure = none ∧
            Html.print outcome.html =
              "<p>" ++ Html.escape (headingSource level title) ++
                "</p>\n\n") := by
  by_cases many : 255 < level
  · have read := Document.ofSource_headingSource_of_many many isTitle
    exact ⟨_, read, fun _ => by omega, fun _ _ => by omega, fun _ =>
      renderDocument_text environment context session _⟩
  · have read := Document.ofSource_headingSource positive
      (Nat.le_of_not_lt many) isTitle
    exact ⟨_, read,
      fun few =>
        renderDocument_heading environment context session positive few title,
      fun more _ =>
        renderDocument_heading_of_many environment context session more _,
      fun _ => by omega⟩

/-- With 256 hashes nothing is a heading and nothing fails. -/
theorem renderDocument_headingSource_many :
    let environment : Environment := ⟨{}, fun disk _ _ => (.ok "", disk)⟩
    let session : Session :=
      { disk :=
          { entries := [([], .directory)]
            nodes := #[]
            workingDirectory := [] } }
    ∃ document,
      Document.ofSource (headingSource 256 "a") = .ok document ∧
        (renderDocument environment ⟨⟨"/"⟩, []⟩ document session).failure =
          none := by
  intro environment session
  have isTitle : IsTitle "a" :=
    { nonempty := by decide
      ordinary := by
        intro character member
        obtain rfl : character = 'a' := by simpa using member
        rfl
      starts := by rintro _ ⟨⟩; rfl
      ends := by rintro _ ⟨⟩; rfl }
  obtain ⟨document, read, -, -, many⟩ :=
    renderDocument_headingSource (show 0 < 256 by decide) isTitle environment
      ⟨⟨"/"⟩, []⟩ session
  exact ⟨document, read, (many (by decide)).1⟩

end Page
end NotePress
