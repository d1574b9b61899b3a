import NotePress.Proofs.Document.WellFormed
import NotePress.Proofs.Markup.LineEndings

/-!
# A carriage return in front of every line feed

Line endings within a paragraph are part of its texts, and blanks; everywhere
else they are dropped. So a source that gets a carriage return in front of every
line feed holds the same document, with those carriage returns in its texts
(`lineEndings_immaterial`). Code in particular stays the same.
-/

namespace NotePress

namespace Text

theorem withReturns_empty : withReturns "" = "" :=
  rfl

/-- Putting carriage returns in front of line feeds is done part by part. -/
theorem withReturns_append (first second : String) :
    withReturns (first ++ second) = withReturns first ++ withReturns second := by
  rw [← String.toList_inj, toList_withReturns, String.toList_append,
    String.toList_append, returned_append, toList_withReturns,
    toList_withReturns]

theorem returned_eq_nil_iff : returned characters = [] ↔ characters = [] := by
  cases characters with
  | nil => exact ⟨id, id⟩
  | cons first others =>
      by_cases feed : first = '\n'
      · subst feed
        simp [returned_lineFeed]
      · simp [returned_cons_of_ne feed]

/-- A text with carriage returns is empty exactly when it is without them. -/
theorem isEmpty_withReturns (text : String) :
    (withReturns text).isEmpty = text.isEmpty := by
  rw [Bool.eq_iff_iff, String.isEmpty_iff, String.isEmpty_iff,
    ← String.toList_eq_nil_iff, toList_withReturns, returned_eq_nil_iff,
    String.toList_eq_nil_iff]

/-! ## Blanks -/

/-- Blanks dropped at the start are dropped with their carriage returns. -/
theorem dropWhile_returned (characters : List Char) :
    (returned characters).dropWhile isBlank =
      returned (characters.dropWhile isBlank) := by
  induction characters with
  | nil => rfl
  | cons first others inductionHypothesis =>
      by_cases feed : first = '\n'
      · subst feed
        rw [returned_lineFeed, List.dropWhile_cons_of_pos (by decide),
          List.dropWhile_cons_of_pos (by decide), inductionHypothesis,
          List.dropWhile_cons_of_pos (by decide)]
      · rw [returned_cons_of_ne feed, List.dropWhile_cons,
          List.dropWhile_cons, inductionHypothesis]
        split
        · rfl
        · exact (returned_cons_of_ne feed others).symm

/-- Blanks dropped at the end are dropped with their carriage returns. -/
theorem dropTrailing_returned (characters : List Char) :
    dropTrailing isBlank (returned characters) =
      returned (dropTrailing isBlank characters) := by
  induction characters with
  | nil => rfl
  | cons first others inductionHypothesis =>
      by_cases feed : first = '\n'
      · subst feed
        rw [returned_lineFeed, dropTrailing, dropTrailing, inductionHypothesis,
          dropTrailing]
        cases dropTrailing isBlank others with
        | nil => decide
        | cons next kept =>
            obtain ⟨start, rest, more⟩ := List.exists_cons_of_ne_nil
              (mt returned_eq_nil_iff.mp (List.cons_ne_nil next kept))
            rw [returned_lineFeed, more]
      · rw [returned_cons_of_ne feed, dropTrailing, dropTrailing,
          inductionHypothesis]
        cases dropTrailing isBlank others with
        | nil =>
            simp only [returned, List.flatMap_nil]
            split
            · rfl
            · simp [feed]
        | cons next kept =>
            obtain ⟨start, rest, more⟩ := List.exists_cons_of_ne_nil
              (mt returned_eq_nil_iff.mp (List.cons_ne_nil next kept))
            rw [returned_cons_of_ne feed, more]

/-- A text trimmed at its start is trimmed with the carriage returns in it. -/
theorem trimStart_withReturns (text : String) :
    trimStart (withReturns text) = withReturns (trimStart text) := by
  rw [← String.toList_inj, toList_trimStart, toList_withReturns,
    dropWhile_returned, toList_withReturns, toList_trimStart]

/-- A text trimmed at its end is trimmed with the carriage returns in it. -/
theorem trimEnd_withReturns (text : String) :
    trimEnd (withReturns text) = withReturns (trimEnd text) := by
  rw [← String.toList_inj, toList_trimEnd, toList_withReturns,
    dropTrailing_returned, toList_withReturns, toList_trimEnd]

/-! ## Lines -/

/-- Lines with a character put in front of the first one. -/
def withFirst (first : Char) : List (List Char) → List (List Char)
  | [] => [[first]]
  | line :: lines => (first :: line) :: lines

/-- A character that ends no line belongs to the first line. -/
theorem splitLines_cons
    {others : List Char}
    (noFeed : first ≠ '\n')
    (noEnding : first = '\r' → others.head? ≠ some '\n') :
    splitLines (first :: others) = withFirst first (splitLines others) := by
  rw [splitLines]
  · cases splitLines others <;> rfl
  · exact noFeed
  · rintro rest isReturn rfl
    exact noEnding isReturn rfl

/-- A carriage return in front of a line feed belongs to the line ending. -/
theorem splitLines_returned
    (plain : '\r' ∉ characters) :
    splitLines (returned characters) = splitLines characters := by
  induction characters with
  | nil => rfl
  | cons first others inductionHypothesis =>
      have later := inductionHypothesis fun member =>
        plain (List.mem_cons_of_mem first member)
      by_cases feed : first = '\n'
      · subst feed
        rw [returned_lineFeed, splitLines, splitLines, later]
      · have noReturn : first ≠ '\r' := by
          rintro rfl
          exact plain List.mem_cons_self
        rw [returned_cons_of_ne feed,
          splitLines_cons feed fun isReturn => absurd isReturn noReturn, later,
          splitLines_cons feed fun isReturn => absurd isReturn noReturn]

end Text

namespace Document

namespace Block

mutual

/-- A block with a carriage return in front of every line feed of its texts. -/
def withReturns : Block → Block
  | text own => text (Text.withReturns own)
  | heading level children => heading level (allWithReturns children)
  | styled style children => styled style (allWithReturns children)
  | orderedItem ordinal children => orderedItem ordinal (allWithReturns children)
  | unorderedItem children => unorderedItem (allWithReturns children)
  | table rows => table (rowsWithReturns rows)
  | block => block

/-- Blocks with a carriage return in front of every line feed of their texts. -/
def allWithReturns : List Block → List Block
  | [] => []
  | first :: others => withReturns first :: allWithReturns others

/-- Cells, or paragraphs, with a carriage return in front of every line feed of
their texts. -/
def groupsWithReturns : List (List Block) → List (List Block)
  | [] => []
  | group :: others => allWithReturns group :: groupsWithReturns others

/-- Rows of a table with a carriage return in front of every line feed of their
texts. -/
def rowsWithReturns : List (List (List Block)) → List (List (List Block))
  | [] => []
  | row :: others => groupsWithReturns row :: rowsWithReturns others

end

/-- The code of a code block. -/
def code? : Block → Option CodeBlock
  | codeBlock code => some code
  | _ => none

end Block

/-- A document with a carriage return in front of every line feed of its texts. -/
def withReturns (document : Document) : Document :=
  Block.groupsWithReturns document

/-- The code blocks of a document, in order. -/
def codeBlocks (document : Document) : List CodeBlock :=
  (subblocksOfGroups document).filterMap Block.code?

/-! ## Blocks with other line endings -/

namespace Reading

open Markup

/-- A text may be put in front of blocks before the carriage returns or after them. -/
theorem withText_withReturns
    (text : String)
    (blocks : List Block) :
    withText (Text.withReturns text) (Block.allWithReturns blocks) =
      Block.allWithReturns (withText text blocks) := by
  rw [withText, withText, Text.isEmpty_withReturns]
  split
  · rfl
  · rw [Block.allWithReturns, Block.withReturns]

theorem trimFirst_withReturns (blocks : List Block) :
    trimFirst (Block.allWithReturns blocks) =
      Block.allWithReturns (trimFirst blocks) := by
  cases blocks with
  | nil => rfl
  | cons first others =>
      cases first with
      | text own =>
          rw [Block.allWithReturns, Block.withReturns, trimFirst,
            Text.trimStart_withReturns, withText_withReturns, trimFirst]
      | _ => rfl

theorem trimLast_withReturns (blocks : List Block) :
    trimLast (Block.allWithReturns blocks) =
      Block.allWithReturns (trimLast blocks) := by
  induction blocks using trimLast.induct with
  | case1 => rfl
  | case2 own =>
      rw [Block.allWithReturns, Block.allWithReturns, Block.withReturns,
        trimLast, Text.trimEnd_withReturns, trimLast]
      exact withText_withReturns _ []
  | case3 block notText =>
      cases block with
      | text own => exact (notText own rfl).elim
      | _ => rfl
  | case4 first second others inductionHypothesis =>
      rw [Block.allWithReturns, Block.allWithReturns, trimLast,
        ← Block.allWithReturns, inductionHypothesis, trimLast,
        Block.allWithReturns]

/-- Blocks are trimmed with the carriage returns in them. -/
theorem trimBlocks_withReturns (blocks : List Block) :
    trimBlocks (Block.allWithReturns blocks) =
      Block.allWithReturns (trimBlocks blocks) := by
  rw [trimBlocks, trimLast_withReturns, trimFirst_withReturns, trimBlocks]

/-! ## Elements with other line endings -/

/-- Elements of the tree of a source in whose leaves only the line endings hold
line feeds. -/
structure Breakable (outer : Kind) (elements : List Element) : Prop where
  grown : Grown outer elements
  returned :
    ∀ leaf ∈ Element.leavesOf elements,
      (leaf.rebreak "\r\n").text = Text.withReturns leaf.text
  plain : ∀ leaf ∈ Element.leavesOf elements, '\r' ∉ leaf.text.toList

namespace Breakable

theorem tail
    (breakable : Breakable outer (first :: others)) :
    Breakable outer others :=
  ⟨breakable.grown.tail,
    fun leaf member => breakable.returned leaf (List.mem_append_right _ member),
    fun leaf member => breakable.plain leaf (List.mem_append_right _ member)⟩

theorem head
    (breakable : Breakable outer (.node kind children :: others)) :
    Breakable kind children :=
  ⟨breakable.grown.child List.mem_cons_self,
    fun leaf member => breakable.returned leaf (List.mem_append_left _ member),
    fun leaf member => breakable.plain leaf (List.mem_append_left _ member)⟩

/-- What is read as blocks may as well stand in a paragraph. -/
theorem of_container
    (breakable : Breakable outer elements)
    (isContainer : outer ∈ .tableCell :: containers) :
    Breakable .paragraph elements :=
  ⟨breakable.grown.of_container isContainer, breakable.returned,
    breakable.plain⟩

end Breakable

/-- In the tree of a source without carriage returns, only line endings hold line
feeds. -/
theorem breakable_parse
    (plain : '\r' ∉ source.toList) :
    Breakable .root (parse source).children := by
  have inTree : ∀ leaf ∈ Element.leavesOf (parse source).children,
      leaf ∈ (parse source).leaves := fun leaf member => member
  refine ⟨grown_parse source, ?_, ?_⟩
  · intro leaf member
    rw [← String.toList_inj, Text.toList_withReturns]
    exact returned_of_mem_leaves plain (inTree leaf member)
  · intro leaf member inside
    have inText := Element.mem_text_of_mem_leaves (inTree leaf member) _ inside
    rw [text_parse] at inText
    exact plain inText

/-- Markers are no line endings. -/
theorem markerText_rebreakAll
    (marker : kind ≠ .newline)
    (ending : String)
    (elements : List Element) :
    markerText kind (Element.rebreakAll ending elements) =
      markerText kind elements := by
  induction elements with
  | nil => rfl
  | cons first others inductionHypothesis =>
      rw [Element.rebreakAll]
      cases first with
      | node nodeKind children =>
          rw [Element.rebreak, markerText, markerText, inductionHypothesis]
      | leaf leafKind text =>
          rw [Element.rebreak]
          split
          · rename_i newline
            subst newline
            rw [markerText, markerText, if_neg marker.symm, if_neg marker.symm,
              inductionHypothesis]
          · rw [markerText, markerText, inductionHypothesis]

/-! ### Code blocks -/

/-- The leaves between the first and the second delimiter among some leaves. -/
def fenced (leaves : List Token) : List Token :=
  match leaves.dropWhile (·.kind != .delimiter) with
  | [] => leaves
  | _ :: rest =>
      leaves.takeWhile (·.kind != .delimiter) ++
        rest.takeWhile (·.kind != .delimiter)

/-- What stands between the fences of leaves is told by their tokens. -/
theorem betweenFences_of_leaves
    {elements : List Element}
    (leaves : ∀ element ∈ elements, element.isLeaf = true) :
    betweenFences elements = fenced (Element.leavesOf elements) := by
  have own : ∀ leafOf : Element → Option Token,
      (∀ kind text, leafOf (.leaf kind text) = some ⟨kind, text⟩) →
        elements.filterMap leafOf = Element.leavesOf elements := by
    intro leafOf isLeaf
    induction elements with
    | nil => rfl
    | cons first others inductionHypothesis =>
        have later := inductionHypothesis fun element member =>
          leaves element (List.mem_cons_of_mem _ member)
        cases first with
        | leaf kind text =>
            rw [List.filterMap_cons_some (isLeaf kind text), later]
            rfl
        | node kind children => cases leaves _ List.mem_cons_self
  exact congrArg fenced (own _ fun kind text => rfl)

/-- A code block holds leaves only. -/
theorem isLeaf_of_grown
    (grown : Grown .codeBlock elements) :
    ∀ element ∈ elements, element.isLeaf = true := by
  intro element member
  obtain ⟨kind, text, rfl⟩ := grown.of_leaf (fun _ => rfl) element member
  rfl

theorem isLeaf_rebreakAll
    (ending : String)
    {elements : List Element}
    (leaves : ∀ element ∈ elements, element.isLeaf = true) :
    ∀ element ∈ Element.rebreakAll ending elements, element.isLeaf = true := by
  induction elements with
  | nil => exact leaves
  | cons first others inductionHypothesis =>
      rw [Element.rebreakAll, List.forall_mem_cons]
      refine ⟨?_, inductionHypothesis (List.forall_mem_cons.mp leaves).2⟩
      cases first with
      | leaf kind text =>
          rw [Element.rebreak]
          split <;> rfl
      | node kind children => cases leaves _ List.mem_cons_self

/-- What stands between the fences has its line endings changed with the others. -/
theorem fenced_map_rebreak
    (leaves : List Token)
    (ending : String) :
    fenced (leaves.map (Token.rebreak ending)) =
      (fenced leaves).map (Token.rebreak ending) := by
  have sameTest : (fun token : Token => token.kind != .delimiter) ∘
      Token.rebreak ending = (·.kind != .delimiter) := by
    funext token
    simp
  rw [fenced, fenced, List.dropWhile_map, sameTest]
  cases leaves.dropWhile (·.kind != .delimiter) with
  | nil => rfl
  | cons first rest =>
      simp only [List.map_cons, List.takeWhile_map, sameTest, List.map_append]

theorem mem_of_mem_fenced
    {leaf : Token}
    {leaves : List Token}
    (member : leaf ∈ fenced leaves) :
    leaf ∈ leaves := by
  unfold fenced at member
  split at member
  · exact member
  · rename_i first rest remains
    rcases List.mem_append.mp member with before | after
    · exact (List.takeWhile_prefix _).subset before
    · apply (List.dropWhile_suffix (·.kind != .delimiter)).subset
      rw [remains]
      exact List.mem_cons_of_mem first ((List.takeWhile_prefix _).subset after)

/-- Texts with carriage returns are the text with carriage returns. -/
theorem join_map_rebreak
    (leaves : List Token)
    (returned : ∀ leaf ∈ leaves,
      (leaf.rebreak "\r\n").text = Text.withReturns leaf.text) :
    String.join ((leaves.map (Token.rebreak "\r\n")).map Token.text) =
      Text.withReturns (String.join (leaves.map Token.text)) := by
  induction leaves with
  | nil => rfl
  | cons first others inductionHypothesis =>
      rw [List.map_cons, List.map_cons, String.join_cons,
        returned first List.mem_cons_self,
        inductionHypothesis fun leaf member =>
          returned leaf (List.mem_cons_of_mem first member),
        List.map_cons, String.join_cons, Text.withReturns_append]

/-- A code block is read as the same code, whatever its line endings are. -/
theorem codeBlock_rebreakAll
    (breakable : Breakable .codeBlock children) :
    codeBlock (Element.rebreakAll "\r\n" children) = codeBlock children := by
  have leaves := isLeaf_of_grown breakable.grown
  have changed := isLeaf_rebreakAll "\r\n" leaves
  have plain : '\r' ∉ (String.join
      ((fenced (Element.leavesOf children)).map Token.text)).toList := by
    rw [String.toList_join, List.flatMap_map]
    intro member
    obtain ⟨leaf, isLeaf, inside⟩ := List.mem_flatMap.mp member
    exact breakable.plain leaf (mem_of_mem_fenced isLeaf) inside
  have lines := Text.splitLines_returned plain
  rw [codeBlock, codeBlock, betweenFences_of_leaves leaves,
    betweenFences_of_leaves changed, Element.leavesOf_rebreakAll,
    fenced_map_rebreak, join_map_rebreak _ fun leaf member =>
      breakable.returned leaf (mem_of_mem_fenced member),
    Text.lines, Text.toList_withReturns, lines, ← Text.lines]

/-! ### Nodes -/

/-- Nothing within a line ends one. -/
theorem rebreakAll_of_withinLine
    (production : Production kind children following)
    (within : kind.isWithinLine = true)
    (ending : String) :
    Element.rebreakAll ending children = children :=
  Element.rebreakAll_of_onLine _ (production.withinLine within)

/-- The block of a node with other line endings has the carriage returns in its texts,
when the blocks and the rows of its children have them. -/
theorem blockOf_rebreakAll
    (production : Production kind children following)
    (held : Kind.paragraph.holds kind = true)
    (breakable : Breakable kind children)
    (inside : Breakable .paragraph children →
      blocksOf "" (Element.rebreakAll "\r\n" children) =
        (blocksOf "" children).map Block.allWithReturns)
    (insideRows : Breakable .table children →
      rowsOf (Element.rebreakAll "\r\n" children) =
        (rowsOf children).map Block.rowsWithReturns) :
    blockOf kind (Element.rebreakAll "\r\n" children) =
      (blockOf kind children).map Block.withReturns := by
  cases kind with
  | heading =>
      rw [blockOf, blockOf, inside (breakable.of_container (by decide)),
        headingLevel, markerText_rebreakAll (by decide), ← headingLevel]
      cases headingLevel children with
      | error malformation => rfl
      | ok level =>
          cases blocksOf "" children with
          | error malformation => rfl
          | ok blocks =>
              simp only [Except.map, trimBlocks_withReturns, Block.withReturns]
  | orderedItem =>
      rw [blockOf, blockOf, inside (breakable.of_container (by decide)),
        ordinal, markerText_rebreakAll (by decide), ← ordinal]
      cases ordinal children with
      | error malformation => rfl
      | ok number =>
          cases blocksOf "" children with
          | error malformation => rfl
          | ok blocks =>
              simp only [Except.map, trimBlocks_withReturns, Block.withReturns]
  | unorderedItem =>
      rw [blockOf, blockOf, inside (breakable.of_container (by decide))]
      cases blocksOf "" children with
      | error malformation => rfl
      | ok blocks =>
          simp only [Except.map, trimBlocks_withReturns, Block.withReturns]
  | bold | italics | underline | strikeout =>
      rw [blockOf, blockOf, inside (breakable.of_container (by decide))]
      cases blocksOf "" children with
      | error malformation => rfl
      | ok blocks => simp only [Except.map, Block.withReturns]
  | table =>
      rw [blockOf, blockOf, insideRows breakable]
      cases rowsOf children with
      | error malformation => rfl
      | ok rows => simp only [Except.map, Block.withReturns]
  | hashtag =>
      rw [rebreakAll_of_withinLine production rfl, blockOf]
      cases hashtag (Element.node .hashtag children).text with
      | error malformation => rfl
      | ok tag => simp only [Except.map, Block.withReturns]
  | literal | checkbox | textbox | quotation | mention =>
      rw [rebreakAll_of_withinLine production rfl, blockOf]
      simp only [Except.map, Block.withReturns]
  | codeBlock =>
      rw [blockOf, blockOf, codeBlock_rebreakAll breakable]
      simp only [Except.map, Block.withReturns]
  | _ => cases held

mutual

/-- Elements with other line endings are read as the same blocks, with the
carriage returns in their texts. -/
theorem blocksOf_rebreakAll :
    ∀ elements text, Breakable .paragraph elements →
      blocksOf (Text.withReturns text) (Element.rebreakAll "\r\n" elements) =
        (blocksOf text elements).map Block.allWithReturns
  | [], text, _ => by
      rw [Element.rebreakAll, blocksOf, blocksOf]
      exact congrArg Except.ok (withText_withReturns text [])
  | .leaf kind more :: others, text, breakable => by
      have returned := breakable.returned ⟨kind, more⟩
        (List.mem_append_left _ (by simp [Element.leaves]))
      have later := blocksOf_rebreakAll others
        (if kind.isMarkup then text else text ++ more) breakable.tail
      rw [Element.rebreakAll, Element.rebreak_leaf, returned, blocksOf,
        blocksOf, ← later]
      split
      · rfl
      · rw [Text.withReturns_append]
  | .node kind children :: others, text, breakable => by
      obtain ⟨following, production⟩ :=
        breakable.grown.production List.mem_cons_self
      have here := blockOf_rebreakAll production
        (breakable.grown.held kind children List.mem_cons_self) breakable.head
        (blocksOf_rebreakAll children "") (rowsOf_rebreakAll children)
      have later := blocksOf_rebreakAll others "" breakable.tail
      rw [Text.withReturns_empty] at later
      rw [Element.rebreakAll, Element.rebreak, blocksOf, here, later, blocksOf]
      cases blockOf kind children with
      | error malformation => rfl
      | ok block =>
          cases blocksOf "" others with
          | error malformation => rfl
          | ok blocks =>
              exact congrArg Except.ok
                (withText_withReturns text (block :: blocks))

/-- Rows with other line endings are read as the same rows, with the carriage returns in
their texts. -/
theorem rowsOf_rebreakAll :
    ∀ elements, Breakable .table elements →
      rowsOf (Element.rebreakAll "\r\n" elements) =
        (rowsOf elements).map Block.rowsWithReturns
  | [], _ => by
      rw [Element.rebreakAll, rowsOf]
      rfl
  | .leaf kind text :: others, breakable => by
      have later := rowsOf_rebreakAll others breakable.tail
      rw [Element.rebreakAll, Element.rebreak_leaf, rowsOf, later, rowsOf]
  | .node kind children :: others, breakable => by
      have isRow : kind = .tableRow :=
        eq_of_beq (breakable.grown.held kind children List.mem_cons_self)
      subst isRow
      have here := cellsOf_rebreakAll children breakable.head
      have later := rowsOf_rebreakAll others breakable.tail
      rw [Element.rebreakAll, Element.rebreak, rowsOf, if_pos rfl, here, later,
        rowsOf, if_pos rfl]
      cases cellsOf children with
      | error malformation => rfl
      | ok row => cases rowsOf others <;> rfl

/-- Cells with other line endings are read as the same cells, with the carriage returns
in their texts. -/
theorem cellsOf_rebreakAll :
    ∀ elements, Breakable .tableRow elements →
      cellsOf (Element.rebreakAll "\r\n" elements) =
        (cellsOf elements).map Block.groupsWithReturns
  | [], _ => by
      rw [Element.rebreakAll, cellsOf]
      rfl
  | .leaf kind text :: others, breakable => by
      have later := cellsOf_rebreakAll others breakable.tail
      rw [Element.rebreakAll, Element.rebreak_leaf, cellsOf, later, cellsOf]
  | .node kind children :: others, breakable => by
      have isCell : kind = .tableCell :=
        eq_of_beq (breakable.grown.held kind children List.mem_cons_self)
      subst isCell
      have here := blocksOf_rebreakAll children ""
        (breakable.head.of_container (by decide))
      have later := cellsOf_rebreakAll others breakable.tail
      rw [Text.withReturns_empty] at here
      rw [Element.rebreakAll, Element.rebreak, cellsOf, if_pos rfl, here, later,
        cellsOf, if_pos rfl]
      cases blocksOf "" children with
      | error malformation => rfl
      | ok cell =>
          cases cellsOf others with
          | error malformation => rfl
          | ok cells =>
              simp only [Except.map, trimBlocks_withReturns,
                Block.groupsWithReturns]

end

/-- Paragraphs with other line endings are read as the same paragraphs, with the
carriage returns in their texts. -/
theorem paragraphsOf_rebreakAll
    (breakable : Breakable .root elements) :
    paragraphsOf (Element.rebreakAll "\r\n" elements) =
      (paragraphsOf elements).map Block.groupsWithReturns := by
  induction elements with
  | nil => rfl
  | cons first others inductionHypothesis =>
      have later := inductionHypothesis breakable.tail
      cases first with
      | leaf kind text =>
          rw [Element.rebreakAll, Element.rebreak_leaf, paragraphsOf, later,
            paragraphsOf]
      | node kind children =>
          have isParagraph : kind = .paragraph :=
            eq_of_beq (breakable.grown.held kind children List.mem_cons_self)
          subst isParagraph
          have here := blocksOf_rebreakAll children "" breakable.head
          rw [Text.withReturns_empty] at here
          rw [Element.rebreakAll, Element.rebreak, paragraphsOf, if_pos rfl,
            here, later, paragraphsOf, if_pos rfl]
          cases blocksOf "" children with
          | error malformation => rfl
          | ok blocks =>
              cases paragraphsOf others with
              | error malformation => rfl
              | ok paragraphs =>
                  simp only [Except.map, trimBlocks_withReturns,
                    Block.groupsWithReturns]

end Reading

/-! ## Code -/

mutual

/-- The code in a block is that of the block with carriage returns. -/
theorem code_subblocks :
    ∀ block : Block,
      (subblocks block.withReturns).filterMap Block.code? =
        (subblocks block).filterMap Block.code?
  | .text _ | .literal _ | .codeBlock _ | .checkbox _ | .textbox
  | .quotation _ | .hashtag _ | .mention _ => rfl
  | .heading _ children | .styled _ children | .orderedItem _ children
  | .unorderedItem children => code_subblocksOf children
  | .table rows => code_subblocksOfRows rows

/-- The code in blocks is that of the blocks with carriage returns. -/
theorem code_subblocksOf :
    ∀ blocks : List Block,
      (subblocksOf (Block.allWithReturns blocks)).filterMap Block.code? =
        (subblocksOf blocks).filterMap Block.code?
  | [] => rfl
  | first :: others => by
      rw [Block.allWithReturns, subblocksOf, List.filterMap_append,
        code_subblocks first, code_subblocksOf others, subblocksOf,
        List.filterMap_append]

/-- The code in cells, or paragraphs, is that of the ones with carriage returns. -/
theorem code_subblocksOfGroups :
    ∀ groups : List (List Block),
      (subblocksOfGroups (Block.groupsWithReturns groups)).filterMap
          Block.code? =
        (subblocksOfGroups groups).filterMap Block.code?
  | [] => rfl
  | group :: others => by
      rw [Block.groupsWithReturns, subblocksOfGroups, List.filterMap_append,
        code_subblocksOf group, code_subblocksOfGroups others,
        subblocksOfGroups, List.filterMap_append]

/-- The code in rows is that of the rows with carriage returns. -/
theorem code_subblocksOfRows :
    ∀ rows : List (List (List Block)),
      (subblocksOfRows (Block.rowsWithReturns rows)).filterMap Block.code? =
        (subblocksOfRows rows).filterMap Block.code?
  | [] => rfl
  | row :: others => by
      rw [Block.rowsWithReturns, subblocksOfRows, List.filterMap_append,
        code_subblocksOfGroups row, code_subblocksOfRows others,
        subblocksOfRows, List.filterMap_append]

end

/-- Carriage returns in the texts of a document leave its code as it is. -/
theorem codeBlocks_withReturns (document : Document) :
    codeBlocks (withReturns document) = codeBlocks document :=
  code_subblocksOfGroups document

/-! ## Sources -/

/-- Whether lines end with a line feed or with a carriage return and a line feed
does not matter. A source without carriage returns keeps its tree when one is put
in front of every line feed, but for the texts of the line endings; the document
that it holds is the same with those carriage returns in its texts, and so is the
malformation if it holds none; and its code blocks are the same. -/
theorem lineEndings_immaterial
    (source : String)
    (plain : '\r' ∉ source.toList) :
    Markup.parse (Text.withReturns source) =
      (Markup.parse source).rebreak "\r\n" ∧
    ofSource (Text.withReturns source) = (ofSource source).map withReturns ∧
    (ofSource (Text.withReturns source)).map codeBlocks =
      (ofSource source).map codeBlocks := by
  have tree := Markup.parse_withReturns source plain
  have document : ofSource (Text.withReturns source) =
      (ofSource source).map withReturns := by
    rw [ofSource, tree, ofTree]
    exact Reading.paragraphsOf_rebreakAll (Reading.breakable_parse plain)
  refine ⟨tree, document, ?_⟩
  rw [document]
  cases ofSource source with
  | error malformation => rfl
  | ok held => exact congrArg Except.ok (codeBlocks_withReturns held)

/-- A paragraph of two lines above a code block. -/
theorem lineEndings_immaterial_listing :
    '\r' ∉ "*a*\nb\n\n```sh\nls \n```\n".toList ∧
    Text.withReturns "*a*\nb\n\n```sh\nls \n```\n" =
      "*a*\r\nb\r\n\r\n```sh\r\nls \r\n```\r\n" ∧
    (ofSource (Text.withReturns "*a*\nb\n\n```sh\nls \n```\n")).map codeBlocks =
      .ok [⟨"sh", ["ls"]⟩] := by
  have plain : '\r' ∉ "*a*\nb\n\n```sh\nls \n```\n".toList := by
    decide +kernel
  refine ⟨plain, by decide +kernel, ?_⟩
  rw [(lineEndings_immaterial _ plain).2.2]
  decide +kernel

end Document
end NotePress
