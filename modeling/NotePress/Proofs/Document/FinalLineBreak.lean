import NotePress.Proofs.Document.LineEndings
import NotePress.Proofs.Markup.LexedLines

/-!
# The last line break

The ending of the last line of a source is a blank at the end of a container, or
the end of the last line of code, and either is dropped. So a source holds the
same document with and without it (`finalLineFeed_immaterial`).
-/

namespace NotePress

namespace Text

open Markup (EndsOpen)

/-- A line feed at the end adds no line when it adds none to what comes after a
character. -/
theorem splitLines_cons_append_lineFeed
    {first : Char}
    {rest : List Char}
    (endsOpen : EndsOpen (first :: rest))
    (noFeed : first ≠ '\n')
    (noEnding : first = '\r' → rest.head? ≠ some '\n')
    (later : rest ≠ [] → splitLines (rest ++ ['\n']) = splitLines rest) :
    splitLines (first :: rest ++ ['\n']) = splitLines (first :: rest) := by
  rw [List.cons_append]
  cases rest with
  | nil =>
      have noReturn : first ≠ '\r' := (endsOpen first rfl).2
      rw [List.nil_append,
        splitLines_cons noFeed fun isReturn => absurd isReturn noReturn,
        splitLines_cons noFeed noEnding]
      rfl
  | cons second others =>
      have noEndingMore : first = '\r' →
          (second :: others ++ ['\n']).head? ≠ some '\n' := noEnding
      rw [splitLines_cons noFeed noEndingMore, splitLines_cons noFeed noEnding,
        later (List.cons_ne_nil second others)]

/-- A line feed after the last line adds no line. -/
theorem splitLines_append_lineFeed
    (endsOpen : EndsOpen characters)
    (nonempty : characters ≠ []) :
    splitLines (characters ++ ['\n']) = splitLines characters := by
  induction characters using splitLines.induct with
  | case1 => exact absurd rfl nonempty
  | case2 rest inductionHypothesis =>
      have goesOn : rest ≠ [] := endsOpen.ne_nil (by simp)
      rw [List.cons_append, splitLines, splitLines,
        inductionHypothesis endsOpen.of_cons goesOn]
  | case3 rest inductionHypothesis =>
      have after := endsOpen.of_cons
      have goesOn : rest ≠ [] := after.ne_nil (by simp)
      rw [List.cons_append, List.cons_append, splitLines, splitLines,
        inductionHypothesis after.of_cons goesOn]
  | case4 first rest noFeed noEnding _ inductionHypothesis
  | case5 first rest noFeed noEnding _ _ _ inductionHypothesis =>
      refine splitLines_cons_append_lineFeed endsOpen noFeed ?_
        (inductionHypothesis endsOpen.of_cons)
      intro isReturn isFeed
      obtain ⟨others, rfl⟩ := List.head?_eq_some_iff.mp isFeed
      exact noEnding others isReturn rfl

/-- A line feed at the end is a blank that is dropped. -/
theorem trimEnd_append_lineFeed (text : String) :
    trimEnd (text ++ "\n") = trimEnd text := by
  rw [← String.toList_inj, toList_trimEnd, toList_trimEnd, String.toList_append,
    dropTrailing_append_of_all]
  exact List.all_eq_true.mp (by decide)

end Text

namespace Document
namespace Reading

open Markup
open Element (endLine endLines endsBefore)

/-! ## Blocks of which the last is trimmed -/

/-- A text by itself is trimmed at its end. -/
theorem trimLast_withText (text : String) :
    trimLast (withText text []) = withText (Text.trimEnd text) [] := by
  unfold withText
  split
  · rename_i empty
    rw [String.isEmpty_iff.mp empty]
    rfl
  · rw [trimLast, withText]

/-- Only the last block is trimmed. -/
theorem trimLast_cons
    (notText : first.isText = false)
    (others : List Block) :
    trimLast (first :: others) = first :: trimLast others := by
  cases others with
  | cons second others => rw [trimLast]
  | nil =>
      cases first with
      | text => cases notText
      | _ => rfl

theorem trimLast_withText_cons
    (notText : first.isText = false)
    (text : String)
    (others : List Block) :
    trimLast (withText text (first :: others)) =
      withText text (first :: trimLast others) := by
  unfold withText
  split
  · exact trimLast_cons notText others
  · rw [trimLast, trimLast_cons notText]

/-- The block of a node is no text. -/
theorem isText_of_grown
    (grown : Grown .paragraph (.node kind children :: others))
    (read : blockOf kind children = .ok block) :
    block.isText = false := by
  have held := grown.held kind children List.mem_cons_self
  cases block with
  | text own => exact (blockOf_ne_text held own read).elim
  | _ => rfl

/-- Readings of blocks that differ at most in blanks at the end. -/
def SameButEnd (first second : Except Malformation (List Block)) : Prop :=
  first.map trimLast = second.map trimLast

namespace SameButEnd

/-- Where the ends are trimmed, there is no difference. -/
theorem trimmed
    (same : SameButEnd first second) :
    (∃ malformation, first = .error malformation ∧
      second = .error malformation) ∨
    ∃ blocks others, first = .ok blocks ∧ second = .ok others ∧
      trimBlocks blocks = trimBlocks others := by
  unfold SameButEnd at same
  cases first with
  | error malformation =>
      cases second with
      | error other =>
          cases same
          exact .inl ⟨malformation, rfl, rfl⟩
      | ok others => cases same
  | ok blocks =>
      cases second with
      | error other => cases same
      | ok others =>
          exact .inr ⟨blocks, others, rfl, rfl,
            congrArg trimFirst (Except.ok.inj same)⟩

/-- Blocks that differ in blanks at the end still do when an element comes before
them. -/
theorem blocksOf_cons
    (grown : Grown .paragraph (first :: others))
    (same : ∀ text, SameButEnd (blocksOf text changed) (blocksOf text others))
    (text : String) :
    SameButEnd (blocksOf text (first :: changed))
      (blocksOf text (first :: others)) := by
  cases first with
  | leaf kind more =>
      rw [blocksOf, blocksOf]
      exact same _
  | node kind children =>
      have later := same ""
      rw [blocksOf, blocksOf]
      unfold SameButEnd at later ⊢
      cases read : blockOf kind children with
      | error malformation => rfl
      | ok block =>
          have notText := isText_of_grown grown read
          revert later
          cases blocksOf "" changed <;> cases blocksOf "" others <;>
            intro later
          · exact later
          · cases later
          · cases later
          · have same := Except.ok.inj later
            simp only [Except.map, trimLast_withText_cons notText, same]

end SameButEnd

/-! ## A line feed at the end -/

/-- A line feed after elements of a line adds blanks at the end only. -/
theorem sameButEnd_append_lineFeed
    (grown : Grown .paragraph elements)
    (text : String) :
    SameButEnd (blocksOf text (elements ++ [.ofToken lineFeed]))
      (blocksOf text elements) := by
  induction elements generalizing text with
  | nil =>
      rw [List.nil_append, Element.ofToken, blocksOf, blocksOf, blocksOf]
      refine congrArg Except.ok ?_
      rw [trimLast_withText, trimLast_withText]
      exact congrArg (fun kept => withText kept [])
        (Text.trimEnd_append_lineFeed text)
  | cons first others inductionHypothesis =>
      exact SameButEnd.blocksOf_cons grown (inductionHypothesis grown.tail) text

/-- Elements that take no line ending have it after them. -/
theorem endLines_of_grown
    (grown : Grown outer elements)
    (within : ∀ kind, outer.holds kind = true → kind.takesEnding = false) :
    endLines lineFeed elements = elements ++ [.ofToken lineFeed] := by
  apply Element.endLines_of_endsBefore
  intro element member
  cases element with
  | leaf => rfl
  | node kind children =>
      rw [endsBefore, within kind (grown.held kind children member)]
      rfl

/-- The nodes that stand within a line take no line ending. -/
theorem takesEnding_of_holds
    {outer : Kind}
    (isLine : outer ∈ [.heading, .orderedItem, .unorderedItem, .tableRow])
    (kind : Kind)
    (held : outer.holds kind = true) :
    kind.takesEnding = false := by
  simp only [List.mem_cons, List.not_mem_nil, or_false] at isLine
  rcases isLine with rfl | rfl | rfl | rfl <;>
    cases kind <;> first | rfl | cases held

/-- A line feed at the end adds nothing to a marker. -/
theorem markerText_append_lineFeed
    {kind : Kind}
    (marker : kind ≠ .newline)
    (elements : List Element) :
    markerText kind (elements ++ [.ofToken lineFeed]) =
      markerText kind elements := by
  induction elements with
  | nil =>
      exact if_neg marker.symm
  | cons first others inductionHypothesis =>
      cases first with
      | leaf leafKind text =>
          rw [List.cons_append, markerText, markerText, inductionHypothesis]
      | node nodeKind children =>
          rw [List.cons_append, markerText, markerText, inductionHypothesis]

/-! ### Tables -/

/-- A line feed after the cells of a row is no cell. -/
theorem cellsOf_append_lineFeed (elements : List Element) :
    cellsOf (elements ++ [.ofToken lineFeed]) = cellsOf elements := by
  induction elements with
  | nil => rw [List.nil_append, Element.ofToken, cellsOf, cellsOf, cellsOf]
  | cons first others inductionHypothesis =>
      cases first with
      | leaf kind text =>
          rw [List.cons_append, cellsOf, cellsOf, inductionHypothesis]
      | node kind children =>
          rw [List.cons_append, cellsOf, cellsOf, inductionHypothesis]

/-- A line feed in the last row of a table is no row. -/
theorem rowsOf_endLines
    (grown : Grown .table elements) :
    rowsOf (endLines lineFeed elements) = rowsOf elements := by
  induction elements with
  | nil => rw [endLines, Element.ofToken, rowsOf, rowsOf, rowsOf]
  | cons first others inductionHypothesis =>
      have later := inductionHypothesis grown.tail
      by_cases last : others = []
      · subst last
        cases first with
        | leaf kind text =>
            simp only [endLines, endLine, Element.ofToken, rowsOf]
        | node kind children =>
            have isRow : kind = .tableRow :=
              eq_of_beq (grown.held kind children List.mem_cons_self)
            subst isRow
            have cells := endLines_of_grown (grown.child List.mem_cons_self)
              (takesEnding_of_holds (by decide))
            simp only [Element.endLines_node (show
              Kind.tableRow.takesEnding = true from rfl), cells, rowsOf,
              cellsOf_append_lineFeed]
      · rw [Element.endLines_cons first last]
        cases first with
        | leaf kind text => rw [rowsOf, rowsOf, later]
        | node kind children => rw [rowsOf, rowsOf, later]

/-! ### Code blocks -/

/-- The code block that a text holds. -/
def codeOf (text : String) : CodeBlock :=
  match Text.lines text with
  | [] => ⟨"", []⟩
  | command :: lines => ⟨Text.trim command, lines.map Text.trimEnd⟩

/-- A line feed at the end of a code block adds no line to its code. -/
theorem codeOf_append_lineFeed
    (endsOpen : EndsOpen text.toList) :
    codeOf (text ++ "\n") = codeOf text := by
  by_cases empty : text = ""
  · subst empty
    decide +kernel
  · have nonempty : text.toList ≠ [] := mt String.toList_eq_nil_iff.mp empty
    have lines : Text.lines (text ++ "\n") = Text.lines text := by
      rw [Text.lines, String.toList_append]
      exact congrArg _ (Text.splitLines_append_lineFeed endsOpen nonempty)
    rw [codeOf, codeOf, lines]

/-- What stands between a fence at the front and the next one. -/
theorem fenced_cons
    {fence : Token}
    (isFence : fence.kind = .delimiter)
    (leaves : List Token) :
    fenced (fence :: leaves) = leaves.takeWhile (·.kind != .delimiter) := by
  have stops : (fence.kind != .delimiter) = false := by simp [isFence]
  simp only [fenced, List.dropWhile_cons, List.takeWhile_cons, stops]
  rfl

/-- The leaves in front of a delimiter are the same, or there is no delimiter and the
line feed is among them. -/
theorem takeWhile_append_lineFeed (leaves : List Token) :
    (leaves ++ [lineFeed]).takeWhile (·.kind != .delimiter) =
        leaves.takeWhile (·.kind != .delimiter) ∨
      leaves.takeWhile (·.kind != .delimiter) = leaves ∧
        (leaves ++ [lineFeed]).takeWhile (·.kind != .delimiter) =
          leaves ++ [lineFeed] := by
  rw [List.takeWhile_append]
  split
  · rename_i whole
    exact .inr ⟨List.IsPrefix.eq_of_length (List.takeWhile_prefix _) whole, rfl⟩
  · exact .inl rfl

/-- The first leaf of a code block is its fence. -/
theorem exists_fence
    (production : Production .codeBlock children following) :
    ∃ fence leaves, fence.kind = .delimiter ∧
      Element.leavesOf children = fence :: leaves := by
  cases production with
  | codeBlock => exact ⟨_, _, rfl, rfl⟩
  | atom _ _ atom => exact absurd atom.inline.1 (by decide)
  | closed _ isStyle | unclosed _ isStyle =>
      exact absurd (Inline.isInline_of_style isStyle) (by decide)
  | marked _ isMarker => cases isMarker

theorem codeBlock_eq (elements : List Element) :
    codeBlock elements =
      codeOf (String.join ((betweenFences elements).map Token.text)) :=
  rfl

theorem toList_join_text (leaves : List Token) :
    (String.join (leaves.map Token.text)).toList = spelled leaves := by
  rw [String.toList_join, List.flatMap_map, spelled]

/-- A line feed at the end of a code block changes no code. -/
theorem codeBlock_endLines
    (production : Production .codeBlock children following)
    (grown : Grown .codeBlock children)
    (endsOpen : EndsOpen (spelled (Element.leavesOf children))) :
    codeBlock (endLines lineFeed children) = codeBlock children := by
  have leaves := isLeaf_of_grown grown
  have leavesMore : ∀ element ∈ children ++ [.ofToken lineFeed],
      element.isLeaf = true := by
    intro element member
    rcases List.mem_append.mp member with here | isLast
    · exact leaves element here
    · rw [List.mem_singleton.mp isLast]
      rfl
  obtain ⟨fence, inside, isFence, whole⟩ := exists_fence production
  have ending : Element.leavesOf [.ofToken lineFeed] = [lineFeed] := rfl
  have added := endLines_of_grown grown fun kind held => by cases held
  rw [whole] at endsOpen
  rw [added, codeBlock_eq, codeBlock_eq, betweenFences_of_leaves leaves,
    betweenFences_of_leaves leavesMore, Element.leavesOf_append, ending, whole,
    List.cons_append, fenced_cons isFence, fenced_cons isFence]
  rcases takeWhile_append_lineFeed inside with closed | ⟨before, after⟩
  · rw [closed]
  · rw [before, after, List.map_append, String.join_append]
    refine codeOf_append_lineFeed ?_
    rw [toList_join_text]
    exact endsOpen.of_suffix (List.suffix_append fence.text.toList _)

/-! ### Blocks -/

/-- A line ending at the end of a line does not change its block. -/
theorem sameButEnd_endLines
    {kind : Kind}
    (isLine : kind ∈ [.heading, .orderedItem, .unorderedItem])
    (grown : Grown kind children) :
    SameButEnd (blocksOf "" (children ++ [.ofToken lineFeed]))
      (blocksOf "" children) := by
  refine sameButEnd_append_lineFeed (grown.of_container ?_) ""
  simp only [List.mem_cons, List.not_mem_nil, or_false] at isLine
  rcases isLine with rfl | rfl | rfl <;> decide

/-- A line feed in the last line of a node leaves its block as it is. -/
theorem blockOf_endLines
    (takes : kind.takesEnding = true)
    (grown : Grown .paragraph (.node kind children :: others))
    (endsOpen : EndsOpen (spelled (Element.leavesOf children))) :
    blockOf kind (endLines lineFeed children) = blockOf kind children := by
  have held := grown.held kind children List.mem_cons_self
  have inside := grown.child List.mem_cons_self
  obtain ⟨following, production⟩ := grown.production List.mem_cons_self
  cases kind with
  | heading =>
      rw [endLines_of_grown inside (takesEnding_of_holds (by decide)), blockOf,
        blockOf, headingLevel, markerText_append_lineFeed (by decide),
        ← headingLevel]
      cases headingLevel children with
      | error malformation => rfl
      | ok level =>
          rcases (sameButEnd_endLines (by decide) inside).trimmed with
            ⟨malformation, more, whole⟩ | ⟨blocks, others, more, whole, same⟩
          · rw [more, whole]
          · simp only [more, whole, same]
  | orderedItem =>
      rw [endLines_of_grown inside (takesEnding_of_holds (by decide)), blockOf,
        blockOf, ordinal, markerText_append_lineFeed (by decide), ← ordinal]
      cases ordinal children with
      | error malformation => rfl
      | ok number =>
          rcases (sameButEnd_endLines (by decide) inside).trimmed with
            ⟨malformation, more, whole⟩ | ⟨blocks, others, more, whole, same⟩
          · rw [more, whole]
          · simp only [more, whole, same]
  | unorderedItem =>
      rw [endLines_of_grown inside (takesEnding_of_holds (by decide)), blockOf,
        blockOf]
      rcases (sameButEnd_endLines (by decide) inside).trimmed with
        ⟨malformation, more, whole⟩ | ⟨blocks, others, more, whole, same⟩
      · rw [more, whole]
      · simp only [more, whole, Except.map, same]
  | table => rw [blockOf, blockOf, rowsOf_endLines inside]
  | codeBlock =>
      rw [blockOf, blockOf, codeBlock_endLines production inside endsOpen]
  | root | paragraph | tableRow => cases held
  | _ => cases takes

/-- What is after an element ends without a line ending when the whole does. -/
theorem endsOpen_tail
    (endsOpen : EndsOpen (spelled (Element.leavesOf (first :: others)))) :
    EndsOpen (spelled (Element.leavesOf others)) := by
  rw [Element.leavesOf, spelled, List.flatMap_append] at endsOpen
  exact endsOpen.of_append

/-- What is in the last node ends without a line ending when the whole does. -/
theorem endsOpen_inside
    {kind : Kind}
    {children : List Element}
    (endsOpen : EndsOpen (spelled (Element.leavesOf [.node kind children]))) :
    EndsOpen (spelled (Element.leavesOf children)) := by
  rwa [Element.leavesOf, Element.leaves, Element.leavesOf, List.append_nil]
    at endsOpen

/-- An ending for the last line of a paragraph is dropped with the blanks at its
end, or is read with a line. -/
theorem sameButEnd_blocksOf_endLines
    (grown : Grown .paragraph elements)
    (endsOpen : EndsOpen (spelled (Element.leavesOf elements)))
    (text : String) :
    SameButEnd (blocksOf text (endLines lineFeed elements))
      (blocksOf text elements) := by
  induction elements generalizing text with
  | nil => exact sameButEnd_append_lineFeed grown text
  | cons first others inductionHypothesis =>
      by_cases last : others = []
      · subst last
        cases first with
        | leaf kind more => exact sameButEnd_append_lineFeed grown text
        | node kind children =>
            cases takes : kind.takesEnding with
            | false =>
                have after : endLines lineFeed [.node kind children] =
                    [.node kind children] ++ [.ofToken lineFeed] := by
                  rw [endLines, endLine, takes]
                  rfl
                rw [after]
                exact sameButEnd_append_lineFeed grown text
            | true =>
                have same := blockOf_endLines takes grown
                  (endsOpen_inside endsOpen)
                rw [Element.endLines_node takes, blocksOf, same, ← blocksOf]
                rfl
      · rw [Element.endLines_cons first last]
        exact SameButEnd.blocksOf_cons grown
          (inductionHypothesis grown.tail (endsOpen_tail endsOpen)) text

/-- A line feed at the end of a source leaves its paragraphs as they are. -/
theorem paragraphsOf_endLines
    (grown : Grown .root elements)
    (endsOpen : EndsOpen (spelled (Element.leavesOf elements))) :
    paragraphsOf (endLines lineFeed elements) = paragraphsOf elements := by
  induction elements with
  | nil => rfl
  | cons first others inductionHypothesis =>
      by_cases last : others = []
      · subst last
        cases first with
        | leaf kind text => rfl
        | node kind children =>
            have isParagraph : kind = .paragraph :=
              eq_of_beq (grown.held kind children List.mem_cons_self)
            subst isParagraph
            have takes : Kind.paragraph.takesEnding = true := rfl
            have read := sameButEnd_blocksOf_endLines
              (grown.child List.mem_cons_self) (endsOpen_inside endsOpen) ""
            simp only [Element.endLines_node takes, paragraphsOf, if_true]
            rcases read.trimmed with
              ⟨malformation, more, whole⟩ | ⟨blocks, others, more, whole, same⟩
            · rw [more, whole]
            · simp only [more, whole, same]
      · have later := inductionHypothesis grown.tail (endsOpen_tail endsOpen)
        rw [Element.endLines_cons first last]
        cases first with
        | leaf kind text => rw [paragraphsOf, paragraphsOf, later]
        | node kind children => rw [paragraphsOf, paragraphsOf, later]

end Reading

/-- Whether the last line has an ending does not matter. A source that ends with
neither a line feed nor a carriage return holds the same document when it gets a
line feed, or is malformed in the same way. -/
theorem finalLineFeed_immaterial
    (source : String)
    (noFeed : source.toList.getLast? ≠ some '\n')
    (noReturn : source.toList.getLast? ≠ some '\r') :
    ofSource (source ++ "\n") = ofSource source := by
  have endsOpen : Markup.EndsOpen source.toList := by
    rintro last isLast
    constructor
    · rintro rfl
      exact noFeed isLast
    · rintro rfl
      exact noReturn isLast
  have spelled : Reading.spelled
      (Markup.Element.leavesOf (Markup.parse source).children) =
        source.toList := by
    rw [← Reading.toList_join_text]
    exact congrArg String.toList (Markup.text_parse source)
  rw [ofSource, ofTree, Markup.parse_lineFeed source endsOpen, ofSource, ofTree]
  apply Reading.paragraphsOf_endLines (Reading.grown_parse source)
  rwa [spelled]

/-- A listing without its closing fence. -/
theorem finalLineFeed_immaterial_listing :
    "# *a*\n\n```sh\nls ".toList.getLast? ≠ some '\n' ∧
    "# *a*\n\n```sh\nls ".toList.getLast? ≠ some '\r' ∧
    (ofSource ("# *a*\n\n```sh\nls " ++ "\n")).map codeBlocks =
      .ok [⟨"sh", ["ls"]⟩] := by
  have noFeed : "# *a*\n\n```sh\nls ".toList.getLast? ≠ some '\n' := by
    decide +kernel
  have noReturn : "# *a*\n\n```sh\nls ".toList.getLast? ≠ some '\r' := by
    decide +kernel
  refine ⟨noFeed, noReturn, ?_⟩
  rw [finalLineFeed_immaterial _ noFeed noReturn]
  decide +kernel

end Document
end NotePress
