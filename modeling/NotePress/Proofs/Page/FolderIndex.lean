import NotePress.Proofs.Document.WrittenHashtags
import NotePress.Proofs.Markup.LexedLines
import NotePress.Proofs.Page.Headings

/-!
# The index of folders as a source

The index of folders is a document that no file holds: a heading for each folder,
with a link to its index document. It is the document of a source all the same,
that with a line for each heading (`ofSource_indexSource`), because lines that are
headings with a hashtag each are read back one by one.
-/

namespace NotePress

namespace Document

open Markup Reading

namespace Hashtag

variable {tag : Hashtag}

/-! ## Hashtags as titles -/

/-- The written form of a hashtag starts with a number sign. -/
theorem head_sourceText (tag : Hashtag) :
    tag.sourceText.toList.head? = some '#' := by
  by_cases unlisted : tag.parameters = []
  · rw [toList_sourceText_nil unlisted]
    rfl
  · rw [toList_sourceText unlisted]
    rfl

/-- The written form of a hashtag starts with no blank. -/
theorem startsVisibly_sourceText (tag : Hashtag) :
    Text.StartsVisibly tag.sourceText := by
  intro first isFirst
  rw [head_sourceText] at isFirst
  cases isFirst
  rfl

/-- The written form of a hashtag is one line. -/
theorem isLine_sourceText (wellFormed : tag.IsWellFormed) :
    IsLine tag.sourceText := by
  have other (character : Char) (noLetter : character.isAlpha = false) :
      character ∉ tag.name.toList := fun member => by
    rw [wellFormed.letters character member] at noLetter
    cases noLetter
  by_cases unlisted : tag.parameters = []
  · constructor
    · rw [toList_sourceText_nil unlisted]
      simp [other '\n' rfl]
    · rw [toList_sourceText_nil unlisted]
      rintro last isLast rfl
      have member := List.mem_of_getLast? isLast
      simp [other '\r' rfl] at member
  · constructor
    · rw [toList_sourceText unlisted]
      simp [other '\n' rfl, (inside_clean wellFormed).1]
    · have brace : EndsIn (· ≠ '\r') ['\x7d'] := by
        rintro last ⟨⟩
        decide
      rw [toList_sourceText unlisted, ← List.cons_append, List.append_cons,
        ← List.append_assoc]
      exact brace.append (List.cons_ne_nil _ _) _

/-- The line of a heading whose title is a hashtag. -/
def headingLine
    (level : Nat)
    (tag : Hashtag) : String :=
  headingSource level tag.sourceText

/-- A heading whose title is a hashtag is one line. -/
theorem isLine_headingLine
    (wellFormed : tag.IsWellFormed)
    (level : Nat) :
    IsLine (tag.headingLine level) := by
  obtain ⟨noFeed, noReturn⟩ := isLine_sourceText wellFormed
  have nonempty : tag.sourceText.toList ≠ [] := by
    obtain ⟨others, whole⟩ := List.head?_eq_some_iff.mp (head_sourceText tag)
    rw [whole]
    exact List.cons_ne_nil _ others
  constructor
  · rw [headingLine, toList_headingSource]
    simp [noFeed]
  · rw [headingLine, toList_headingSource, List.append_cons]
    exact noReturn.append nonempty _

theorem lex_headingLine
    (level : Nat)
    (tag : Hashtag) :
    lex (headingLine level tag) =
      List.replicate level hashToken ++ spaceToken :: lex tag.sourceText :=
  lex_headingSource (startsVisibly_sourceText tag) level

/-- The elements of a heading line whose title is a hashtag. -/
def headingParts
    (level : Nat)
    (children : List Element) : List Element :=
  [Line.glued .headingMarker (List.replicate level hashToken),
    .ofToken spaceToken, .node .hashtag children, .ofToken lineFeed]

/-- The line of a heading with a hashtag is read as that heading. -/
theorem IsParsedAs.headingBlock
    (parsed : tag.IsParsedAs first rest children last)
    (positive : 0 < level)
    (few : level ≤ Line.maximalLevel)
    (below : List Token) :
    Line.Block (lex (tag.headingLine level) ++ lineFeed :: below)
      [.node .heading (headingParts level children)] below := by
  have isName := parsed.isName
  have stopped (following : List Token) :
      Inline.stopsAt (fun _ => false) (first :: following) = false := by
    rw [Inline.stopsAt, isName]
    rfl
  have unstyled : first.kind.style? = none := by
    rw [isName]
    rfl
  have content : Inline.Derives (fun _ => false) .whitespace
      (first :: (rest ++ lineFeed :: below)) [.node .hashtag children] last
      (lineFeed :: below) :=
    .atom (stopped _) unstyled (parsed.atom _ rfl) (.done rfl)
  rw [lex_headingLine, parsed.tokens, List.append_assoc, List.cons_append,
    List.cons_append]
  exact .marked (marker_hashes positive few (spaceToken :: _)) rfl content
    (.taken rfl)

/-- The space before a title and the line ending after it are dropped. -/
theorem IsParsedAs.blockOf_heading
    (parsed : tag.IsParsedAs first rest children last)
    (kept : hashtag tag.sourceText = .ok tag)
    (positive : 0 < level)
    (few : level ≤ Line.maximalLevel) :
    blockOf .heading (headingParts level children) =
      .ok (.heading level [.hashtag tag]) := by
  have own : blockOf .hashtag children = .ok (.hashtag tag) := by
    rw [blockOf, parsed.text, kept]
    rfl
  have inside : blocksOf "" (headingParts level children) =
      .ok [.text " ", .hashtag tag, .text "\n"] := by
    simp only [headingParts, Line.glued, Element.ofToken, blocksOf, own]
    rfl
  rw [blockOf, inside, headingParts, headingLevel_glued positive few]
  rfl

/-! ## Headings under one another -/

/-- Headings under one another go on with the paragraph they are in. -/
theorem atVisible_headingLines
    (nonempty : tags ≠ [])
    (positive : 0 < level) :
    Line.atVisible (tokensOfLines (tags.map (headingLine level))) = true := by
  obtain ⟨tag, others, rfl⟩ := List.exists_cons_of_ne_nil nonempty
  rw [List.map_cons, tokensOfLines_cons, lex_headingLine, List.append_assoc]
  exact atVisible_headingSource positive _

/-- Lines that are headings with a hashtag each are read one by one. -/
theorem exists_headingLines
    (nonempty : tags ≠ [])
    (wellFormed : ∀ tag ∈ tags, IsWellFormed tag)
    (kept : ∀ tag ∈ tags, hashtag tag.sourceText = .ok tag)
    (positive : 0 < level)
    (few : level ≤ Line.maximalLevel) :
    ∃ elements,
      Parse.Lines (tokensOfLines (tags.map (headingLine level))) elements [] ∧
      blocksOf "" elements =
        .ok (tags.map fun tag => .heading level [.hashtag tag]) := by
  induction tags with
  | nil => exact absurd rfl nonempty
  | cons tag others inductionHypothesis =>
      obtain ⟨isTag, areTags⟩ := List.forall_mem_cons.mp wellFormed
      obtain ⟨keptTag, keptOthers⟩ := List.forall_mem_cons.mp kept
      -- The first line is a block whatever is below it, so the others are read as
      -- if they stood alone.
      obtain ⟨name, rest, children, last, parsed⟩ := exists_isParsedAs isTag
      have block := parsed.headingBlock positive few
      have read := parsed.blockOf_heading keptTag positive few
      rw [List.map_cons, tokensOfLines_cons]
      cases others with
      | nil =>
          refine ⟨_, .last (block []) rfl, ?_⟩
          rw [blocksOf, read, blocksOf]
          rfl
      | cons second others =>
          obtain ⟨elements, lines, readOthers⟩ :=
            inductionHypothesis (List.cons_ne_nil _ _) areTags keptOthers
          have visible :=
            atVisible_headingLines (List.cons_ne_nil second others) positive
          refine ⟨_, .next (block _) visible lines, ?_⟩
          rw [List.singleton_append, blocksOf, read, readOthers]
          rfl

/-- Headings with a hashtag each are read back from their lines. -/
theorem ofSource_headingLines
    (nonempty : tags ≠ [])
    (wellFormed : ∀ tag ∈ tags, IsWellFormed tag)
    (kept : ∀ tag ∈ tags, hashtag tag.sourceText = .ok tag)
    (positive : 0 < level)
    (few : level ≤ Line.maximalLevel) :
    ofSource (endedLines (tags.map (headingLine level))) =
      .ok [tags.map fun tag => .heading level [.hashtag tag]] := by
  obtain ⟨elements, lines, read⟩ :=
    exists_headingLines nonempty wellFormed kept positive few
  have areLines : ∀ line ∈ tags.map (headingLine level), IsLine line := by
    intro line member
    obtain ⟨tag, isTag, rfl⟩ := List.mem_map.mp member
    exact isLine_headingLine (wellFormed tag isTag) level
  have tokens : lex (endedLines (tags.map (headingLine level))) =
      tokensOfLines (tags.map (headingLine level)) := by
    have whole := lex_endedLines areLines ""
    rwa [String.append_empty, lex_empty, List.append_nil] at whole
  have noText (text : String) :
      .text text ∉ tags.map fun tag => Block.heading level [.hashtag tag] := by
    intro member
    obtain ⟨tag, _, same⟩ := List.mem_map.mp member
    cases same
  rw [ofSource, parse, tokens,
    parseTokens_of_lines (atVisible_headingLines nonempty positive) lines,
    ofTree_paragraph read, trimBlocks_eq]
  · exact fun text isFirst => absurd (List.mem_of_head? isFirst) (noText text)
  · exact fun text isLast => absurd (List.mem_of_getLast? isLast) (noText text)

end Hashtag

end Document

namespace Source

open Markup
open Document (Hashtag ofSource)
open Text (StartsVisibly EndsVisibly)

/-! ## The index -/

/-- The line of a folder in an index. -/
def indexLine
    (indexFileName name : String) : String :=
  String.join ["## #Link\x7b", name, "/", indexFileName, "|", name, "\x7d"]

/-- The index of folders as a source. -/
def indexSource
    (folders : List String)
    (indexFileName : String) : String :=
  endedLines (folders.map (indexLine indexFileName))

/-- A name that can stand in a parameter as it is. -/
structure IsLinkable (name : String) : Prop where
  trimmed : Text.trim name = name
  noBar : '|' ∉ name.toList
  noBrace : '\x7d' ∉ name.toList
  noFeed : '\n' ∉ name.toList

theorem IsLinkable.starts (linkable : IsLinkable name) : StartsVisibly name := by
  rw [← linkable.trimmed]
  exact Text.startsVisibly_trim name

theorem IsLinkable.ends (linkable : IsLinkable name) : EndsVisibly name := by
  rw [← linkable.trimmed]
  exact Text.endsVisibly_trim name

theorem IsLinkable.clean (linkable : IsLinkable name) :
    ∀ character ∈ name.toList,
      character ≠ '|' ∧ character ≠ '\x7d' ∧ character ≠ '\n' := by
  intro character member
  refine ⟨?_, ?_, ?_⟩ <;> rintro rfl
  · exact linkable.noBar member
  · exact linkable.noBrace member
  · exact linkable.noFeed member

/-- The link to the index document of a folder. -/
def indexLink
    (indexFileName name : String) : Hashtag :=
  ⟨"Link", [name ++ "/" ++ indexFileName, name]⟩

/-- The line of a folder is a heading with the link to its index document. -/
theorem headingLine_indexLink (indexFileName name : String) :
    (indexLink indexFileName name).headingLine 2 =
      indexLine indexFileName name := by
  have inside : (indexLink indexFileName name).inside =
      name ++ "/" ++ indexFileName ++ "|" ++ name := by
    apply String.toList_injective
    rw [Hashtag.toList_inside, indexLink]
    simp
  apply String.toList_injective
  rw [Hashtag.headingLine, toList_headingSource,
    Hashtag.toList_sourceText (by simp [indexLink]), inside, indexLine,
    indexLink]
  simp

/-- The link to the index document of a folder is a hashtag as a source writes it, when
both names are. -/
theorem isWellFormed_indexLink
    (isName : IsLinkable name)
    (isIndex : IsLinkable indexFileName) :
    (indexLink indexFileName name).IsWellFormed := by
  have slash : IsLinkable "/" := by
    constructor <;> decide +kernel
  have clean : ∀ character ∈ (name ++ "/" ++ indexFileName).toList,
      character ≠ '|' ∧ character ≠ '\x7d' ∧ character ≠ '\n' := by
    rw [String.toList_append, String.toList_append]
    exact List.forall_mem_append.mpr
      ⟨List.forall_mem_append.mpr ⟨isName.clean, slash.clean⟩, isIndex.clean⟩
  constructor
  · exact show "Link" ≠ "" by decide
  · exact List.all_eq_true.mp (show "Link".toList.all Char.isAlpha = true by
      decide)
  · refine List.forall_mem_cons.mpr ⟨⟨?_, ?_⟩,
      List.forall_mem_singleton.mpr ⟨isName.starts, isName.ends⟩⟩
    · exact (isName.starts.append slash.starts).append isIndex.starts
    · exact (isName.ends.append slash.ends).append isIndex.ends
  · exact List.forall_mem_cons.mpr
      ⟨clean, List.forall_mem_singleton.mpr isName.clean⟩

/-- The index of folders is the document of its source. -/
theorem ofSource_indexSource
    (indexed : folders ≠ [])
    (areNames : ∀ name ∈ folders, IsLinkable name)
    (isIndex : IsLinkable indexFileName) :
    ofSource (indexSource folders indexFileName) =
      .ok (indexDocument folders indexFileName) := by
  have links : folders.map (indexLink indexFileName) ≠ [] := by
    simpa using indexed
  have wellFormed : ∀ tag ∈ folders.map (indexLink indexFileName),
      tag.IsWellFormed := by
    intro tag member
    obtain ⟨name, isFolder, rfl⟩ := List.mem_map.mp member
    exact isWellFormed_indexLink (areNames name isFolder) isIndex
  have kept : ∀ tag ∈ folders.map (indexLink indexFileName),
      Document.Reading.hashtag tag.sourceText = .ok tag := by
    intro tag member
    rw [Hashtag.hashtag_sourceText (wellFormed tag member)]
    obtain ⟨name, _, rfl⟩ := List.mem_map.mp member
    exact if_neg (by simp [indexLink])
  have lines : (folders.map (indexLink indexFileName)).map
      (Hashtag.headingLine 2) = folders.map (indexLine indexFileName) := by
    rw [List.map_map]
    exact List.map_congr_left fun name _ =>
      headingLine_indexLink indexFileName name
  rw [indexSource, ← lines,
    Hashtag.ofSource_headingLines links wellFormed kept Nat.two_pos (by decide),
    List.map_map]
  rfl

/-- A folder whose name looks like markup, and another one. -/
theorem ofSource_indexSource_markup :
    ofSource
        ("## #Link\x7b*a* -- \x7b#b/x y|*a* -- \x7b#b\x7d\n" ++
          "## #Link\x7bc/x y|c\x7d\n") =
      .ok (indexDocument ["*a* -- \x7b#b", "c"] "x y") := by
  have linkable : ∀ name ∈ ["*a* -- \x7b#b", "c", "x y"], IsLinkable name := by
    simp only [List.forall_mem_cons]
    refine ⟨?_, ?_, ?_, List.forall_mem_nil _⟩ <;>
      constructor <;> decide +kernel
  have written : indexSource ["*a* -- \x7b#b", "c"] "x y" =
      "## #Link\x7b*a* -- \x7b#b/x y|*a* -- \x7b#b\x7d\n" ++
        "## #Link\x7bc/x y|c\x7d\n" := by
    decide +kernel
  have areNames : ∀ name ∈ ["*a* -- \x7b#b", "c"], IsLinkable name :=
    fun name member => linkable name (List.mem_append_left ["x y"] member)
  have read := ofSource_indexSource (List.cons_ne_nil _ _) areNames
    (linkable "x y" (by simp))
  rwa [written] at read

end Source
end NotePress
