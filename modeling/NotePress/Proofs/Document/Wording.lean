import NotePress.Proofs.Document.Readings
import NotePress.Proofs.Markup.Shape

/-!
# Reading a document loses no content

The texts and literals of a document hold what the leaves of the tree hold that
carry content, in the same order. Only blanks are lost: those at the ends of a
trimmed container, those after the last bar of a table row and those of blank
lines. A literal is kept as it is.
-/

namespace NotePress

/-! ## Blanks -/

namespace Text

/-- The characters that are not blank. -/
def visible (characters : List Char) : List Char :=
  characters.filter fun character => !isBlank character

@[simp] theorem visible_append (first second : List Char) :
    visible (first ++ second) = visible first ++ visible second :=
  List.filter_append first second

/-- Nothing is visible among blanks. -/
theorem visible_of_all_blank
    {characters : List Char}
    (blank : ∀ character ∈ characters, isBlank character = true) :
    visible characters = [] := by
  rw [visible, List.filter_eq_nil_iff]
  intro character member
  rw [blank character member]
  decide

/-- Dropping blanks at the start loses nothing visible. -/
theorem visible_dropWhile (characters : List Char) :
    visible (characters.dropWhile isBlank) = visible characters := by
  have whole := congrArg visible
    (List.takeWhile_append_dropWhile (p := isBlank) (l := characters))
  rwa [visible_append, visible_of_all_blank fun _ => List.mem_takeWhile_imp,
    List.nil_append] at whole

/-- Dropping blanks at the end loses nothing visible. -/
theorem visible_dropTrailing (characters : List Char) :
    visible (dropTrailing isBlank characters) = visible characters := by
  induction characters with
  | nil => rfl
  | cons first others inductionHypothesis =>
      rw [← List.singleton_append, visible_append, ← inductionHypothesis,
        ← visible_append, List.singleton_append, dropTrailing]
      split
      · rename_i nothing
        rw [nothing]
        split
        · rename_i blank
          exact (visible_of_all_blank (by simpa using blank)).symm
        · rfl
      · rfl

end Text

/-! ## The content of a document -/

namespace Document

mutual

/-- A block and all blocks inside it, in the order of the document. -/
def subblocks : Block → List Block
  | .heading level children => .heading level children :: subblocksOf children
  | .styled style children => .styled style children :: subblocksOf children
  | .orderedItem ordinal children =>
      .orderedItem ordinal children :: subblocksOf children
  | .unorderedItem children => .unorderedItem children :: subblocksOf children
  | .table rows => .table rows :: subblocksOfRows rows
  | block => [block]

/-- Some blocks and all blocks inside them. -/
def subblocksOf : List Block → List Block
  | [] => []
  | first :: others => subblocks first ++ subblocksOf others

/-- The blocks of cells, or of paragraphs, and all blocks inside them. -/
def subblocksOfGroups : List (List Block) → List Block
  | [] => []
  | group :: others => subblocksOf group ++ subblocksOfGroups others

/-- The blocks of the rows of a table and all blocks inside them. -/
def subblocksOfRows : List (List (List Block)) → List Block
  | [] => []
  | row :: others => subblocksOfGroups row ++ subblocksOfRows others

end

/-- The text that a text or a literal holds itself. -/
def ownText : Block → String
  | .text text => text
  | .literal text => text
  | _ => ""

/-- The text of a literal. -/
def literal? : Block → Option String
  | .literal text => some text
  | _ => none

/-- The characters of the texts and literals among some blocks. -/
def characters (blocks : List Block) : List Char :=
  blocks.flatMap fun block => (ownText block).toList

/-- The characters of a document that are not blank, in order. -/
def visibleCharacters (document : Document) : List Char :=
  Text.visible (characters (subblocksOfGroups document))

/-- The literals of a document, in order. -/
def literals (document : Document) : List String :=
  (subblocksOfGroups document).filterMap literal?

end Document

/-! ## The content of a tree -/

namespace Markup

/-- Whether nodes of a kind are read as a whole, not as the content of their
children. -/
def Kind.isOpaque : Kind → Bool
  | quotation | hashtag | mention | checkbox | textbox | codeBlock => true
  | _ => false

namespace Element

mutual

/-- The leaves of an element that do not lie inside a node read as a whole. -/
def openLeaves : Element → List Token
  | leaf kind text => [⟨kind, text⟩]
  | node kind children => if kind.isOpaque then [] else openLeavesOf children

/-- The leaves of some elements that do not lie inside a node read as a whole. -/
def openLeavesOf : List Element → List Token
  | [] => []
  | first :: others => openLeaves first ++ openLeavesOf others

end

/-- The characters of the leaves that are not markup. -/
def characters (leaves : List Token) : List Char :=
  (leaves.filter fun token => !token.kind.isMarkup).flatMap fun token =>
    token.text.toList

/-- The characters of an element that carry content and are not blank, in
order. -/
def visibleCharacters (element : Element) : List Char :=
  Text.visible (characters element.openLeaves)

/-- Whether an element is a literal with its delimiters. -/
def isLiteral : Element → Bool
  | leaf _ _ => false
  | node kind _ => kind == .literal

/-- The literals among some elements and below them. -/
def literalsOf (elements : List Element) : List Element :=
  (subtreesOf elements).filter isLiteral

theorem literalsOf_cons
    (first : Element)
    (others : List Element) :
    literalsOf (first :: others) = literalsOf [first] ++ literalsOf others := by
  rw [literalsOf, literalsOf, literalsOf, ← List.filter_append,
    ← subtreesOf_append, List.singleton_append]

theorem literalsOf_leaf
    (kind : Kind)
    (text : String) :
    literalsOf [.leaf kind text] = [] := rfl

/-- The literals of a node that is none are those among its children. -/
theorem literalsOf_node
    {kind : Kind}
    (other : kind ≠ .literal)
    (children : List Element) :
    literalsOf [.node kind children] = literalsOf children := by
  rw [literalsOf, subtreesOf, subtrees, subtreesOf, List.append_nil,
    List.filter_cons_of_neg]
  · rfl
  · simpa [isLiteral] using other

/-- A literal comes before the literals among its children. -/
theorem literalsOf_literal (children : List Element) :
    literalsOf [.node .literal children] =
      .node .literal children :: literalsOf children := by
  rw [literalsOf, subtreesOf, subtrees, subtreesOf, List.append_nil,
    List.filter_cons_of_pos rfl]
  rfl

/-- There are no literals among leaves. -/
theorem literalsOf_eq_nil_of_leaves
    {elements : List Element}
    (leaves : ∀ element ∈ elements, ∃ kind text, element = leaf kind text) :
    literalsOf elements = [] := by
  induction elements with
  | nil => rfl
  | cons first others inductionHypothesis =>
      obtain ⟨kind, text, rfl⟩ := leaves first List.mem_cons_self
      rw [literalsOf_cons, literalsOf_leaf, List.nil_append]
      exact inductionHypothesis fun element member =>
        leaves element (List.mem_cons_of_mem _ member)

theorem openLeavesOf_append (first second : List Element) :
    openLeavesOf (first ++ second) = openLeavesOf first ++ openLeavesOf second := by
  induction first with
  | nil => rfl
  | cons element others inductionHypothesis =>
      rw [List.cons_append, openLeavesOf, openLeavesOf, inductionHypothesis,
        List.append_assoc]

theorem characters_append (first second : List Token) :
    characters (first ++ second) = characters first ++ characters second := by
  rw [characters, characters, characters, List.filter_append,
    List.flatMap_append]

end Element
end Markup

namespace Document
namespace Reading

open Markup

/-! ## Trimmed blocks -/

/-- The characters of blocks are gathered in order. -/
theorem characters_append (first second : List Block) :
    characters (first ++ second) = characters first ++ characters second :=
  List.flatMap_append

/-- Blocks with the same characters but for blanks, and the same literals. -/
structure SameContent (first second : List Block) : Prop where
  characters : Text.visible (characters first) =
    Text.visible (Document.characters second)
  literals : first.filterMap literal? = second.filterMap literal?

namespace SameContent

theorem refl (blocks : List Block) : SameContent blocks blocks :=
  ⟨rfl, rfl⟩

theorem trans
    (front : SameContent first second)
    (back : SameContent second third) :
    SameContent first third :=
  ⟨front.characters.trans back.characters, front.literals.trans back.literals⟩

theorem append
    (front : SameContent first second)
    (back : SameContent firstOthers secondOthers) :
    SameContent (first ++ firstOthers) (second ++ secondOthers) := by
  refine ⟨?_, ?_⟩
  · rw [characters_append, characters_append, Text.visible_append,
      Text.visible_append, front.characters, back.characters]
  · rw [List.filterMap_append, List.filterMap_append, front.literals,
      back.literals]

end SameContent

theorem subblocksOf_cons
    (first : Block)
    (others : List Block) :
    subblocksOf (first :: others) = subblocks first ++ subblocksOf others := by
  rw [subblocksOf]

theorem subblocksOf_append (first second : List Block) :
    subblocksOf (first ++ second) = subblocksOf first ++ subblocksOf second := by
  induction first with
  | nil => rfl
  | cons block others inductionHypothesis =>
      rw [List.cons_append, subblocksOf_cons, subblocksOf_cons block,
        inductionHypothesis, List.append_assoc]

theorem subblocks_text (text : String) : subblocks (.text text) = [.text text] := by
  rw [subblocks]
  all_goals simp

theorem characters_text (text : String) :
    characters [.text text] = text.toList := by
  simp [characters, ownText]

/-- A text may lose blanks, and vanish when nothing else is in it. -/
theorem sameContent_withText
    (text trimmed : String)
    (blocks : List Block)
    (same : Text.visible trimmed.toList = Text.visible text.toList) :
    SameContent (subblocksOf (withText trimmed blocks))
      (subblocksOf (.text text :: blocks)) := by
  unfold withText
  rw [subblocksOf_cons, subblocks_text]
  split
  · rename_i empty
    rw [String.isEmpty_iff.mp empty] at same
    refine ⟨?_, rfl⟩
    rw [characters_append, characters_text, Text.visible_append, ← same]
    rfl
  · rw [subblocksOf_cons, subblocks_text]
    refine SameContent.append ⟨?_, rfl⟩ (.refl _)
    rw [characters_text, characters_text, same]

/-- Trimming the first of some blocks loses only blanks. -/
theorem sameContent_trimFirst (blocks : List Block) :
    SameContent (subblocksOf (trimFirst blocks)) (subblocksOf blocks) := by
  unfold trimFirst
  split
  · exact sameContent_withText _ _ _ (by
      rw [Text.toList_trimStart, Text.visible_dropWhile])
  · exact .refl _

/-- Trimming the last of some blocks loses only blanks. -/
theorem sameContent_trimLast (blocks : List Block) :
    SameContent (subblocksOf (trimLast blocks)) (subblocksOf blocks) := by
  induction blocks using trimLast.induct with
  | case1 => exact .refl _
  | case2 text =>
      exact sameContent_withText _ _ _ (by
        rw [Text.toList_trimEnd, Text.visible_dropTrailing])
  | case3 block notText =>
      rw [trimLast]
      · exact .refl _
      · exact notText
  | case4 first second others inductionHypothesis =>
      rw [trimLast, subblocksOf_cons, subblocksOf_cons first]
      exact (SameContent.refl _).append inductionHypothesis

/-- Trimming blocks at both ends loses only blanks. -/
theorem sameContent_trimBlocks (blocks : List Block) :
    SameContent (subblocksOf (trimBlocks blocks)) (subblocksOf blocks) :=
  (sameContent_trimFirst _).trans (sameContent_trimLast blocks)

/-! ## What blocks keep of elements -/

/-- A literal as it is written. -/
def quoted (text : String) : String :=
  "`" ++ text ++ "`"

/-- Blocks that hold the content of elements after a text: the same characters but
for blanks, and the literals among the elements. -/
structure Keeps
    (text : String)
    (blocks : List Block)
    (elements : List Element) : Prop where
  characters : Text.visible (characters blocks) =
    Text.visible (text.toList ++
      Element.characters (Element.openLeavesOf elements))
  literals : (blocks.filterMap literal?).map quoted =
    (Element.literalsOf elements).map Element.text

namespace Keeps

/-- Blocks may be replaced by others with the same content. -/
theorem of_sameContent
    (keeps : Keeps text blocks elements)
    (same : SameContent others blocks) :
    Keeps text others elements :=
  ⟨same.characters.trans keeps.characters,
    (congrArg (List.map quoted) same.literals).trans keeps.literals⟩

/-- What keeps the content of two pieces keeps that of both together. -/
theorem append
    (front : Keeps "" blocks first)
    (back : Keeps "" others second) :
    Keeps "" (blocks ++ others) (first ++ second) := by
  refine ⟨?_, ?_⟩
  · rw [characters_append, Element.openLeavesOf_append,
      Element.characters_append, Text.visible_append, front.characters,
      back.characters]
    simp only [Text.visible_append, String.toList_empty, List.nil_append]
  · rw [List.filterMap_append, List.map_append, front.literals, back.literals,
      ← List.map_append]
    rw [Element.literalsOf, Element.literalsOf, Element.literalsOf,
      Element.subtreesOf_append, List.filter_append]

theorem nil : Keeps "" [] [] :=
  ⟨rfl, rfl⟩

/-- A text that stands before the first block. -/
theorem withText
    (keeps : Keeps "" (subblocksOf blocks) elements)
    (text : String) :
    Keeps text (subblocksOf (Reading.withText text blocks)) elements := by
  have same := sameContent_withText text text blocks rfl
  rw [subblocksOf_cons, subblocks_text] at same
  refine ⟨?_, ?_⟩
  · rw [same.characters, characters_append, characters_text,
      Text.visible_append, keeps.characters, String.toList_empty,
      List.nil_append, Text.visible_append]
  · rw [same.literals]
    exact keeps.literals

/-- A leaf adds to the text before the next block, unless it is markup. -/
theorem leaf
    {kind : Kind}
    (keeps : Keeps (if kind.isMarkup then text else text ++ more) blocks
      elements) :
    Keeps text blocks (.leaf kind more :: elements) := by
  refine ⟨?_, ?_⟩
  · rw [keeps.characters, Element.openLeavesOf, Element.openLeaves,
      Element.characters_append]
    cases markup : kind.isMarkup <;>
      simp [Element.characters, markup]
  · rw [keeps.literals, Element.literalsOf_cons, Element.literalsOf_leaf,
      List.nil_append]

/-- Markup and blanks may be left out. -/
theorem skip
    (keeps : Keeps "" blocks elements)
    {kind : Kind}
    {more : String}
    (skipped : kind.isMarkup = true ∨
      ∀ character ∈ more.toList, Text.isBlank character = true) :
    Keeps "" blocks (.leaf kind more :: elements) := by
  have nothing : Text.visible (Element.characters [⟨kind, more⟩]) = [] := by
    rcases skipped with markup | blank
    · simp [Element.characters, markup, Text.visible]
    · apply Text.visible_of_all_blank
      intro character member
      simp only [Element.characters, List.mem_flatMap, List.mem_filter,
        List.mem_singleton] at member
      obtain ⟨_, ⟨rfl, _⟩, inside⟩ := member
      exact blank character inside
  refine ⟨?_, ?_⟩
  · rw [keeps.characters, Element.openLeavesOf, Element.characters_append,
      String.toList_empty, List.nil_append, List.nil_append,
      Text.visible_append]
    exact (congrArg (· ++ _) nothing).symm
  · rw [keeps.literals, Element.literalsOf_cons]
    rfl

/-- A node that holds the content of its children. -/
theorem node
    {children : List Element}
    (keeps : Keeps "" blocks children)
    (kind : Kind)
    (transparent : kind.isOpaque = false)
    (notLiteral : kind ≠ .literal) :
    Keeps "" blocks [.node kind children] := by
  refine ⟨?_, ?_⟩
  · rw [keeps.characters, Element.openLeavesOf, Element.openLeaves,
      if_neg (by rw [transparent]; decide)]
    exact congrArg (fun leaves => Text.visible (_ ++ Element.characters leaves))
      (List.append_nil _).symm
  · rw [keeps.literals, Element.literalsOf_node notLiteral]

end Keeps

/-! ## Nodes -/

/-- Elements whose nodes may stand in a paragraph. -/
def NodesAreLines (elements : List Element) : Prop :=
  ∀ kind children, Element.node kind children ∈ elements →
    (Element.node kind children).IsLine

/-- What the builder has to know of a node in a paragraph: it is a container of
such nodes, a literal, a node read as a whole, or a table. -/
inductive NodeShape : Kind → List Element → Prop
  | container {kind : Kind} {children : List Element} :
      kind ∈ [.heading, .bold, .italics, .underline, .strikeout, .orderedItem,
        .unorderedItem] →
      NodesAreLines children →
      NodeShape kind children
  | literal
      {opening closing : Token}
      {inside : List Token} :
      opening.text = "`" →
      closing.text = "`" →
      AllLexed inside →
      NodeShape .literal
        (.ofDelimiter opening :: inside.map .ofToken ++
          [.ofDelimiter closing])
  | whole {kind : Kind} {children : List Element} :
      kind.isOpaque = true →
      Element.literalsOf children = [] →
      NodeShape kind children
  | table {rows : List Element} :
      (∀ row ∈ rows, row.IsRow) →
      NodeShape .table rows

/-- Nodes within a line may stand in a paragraph. -/
theorem nodesAreLines_of_inline
    {elements : List Element}
    (inline : ∀ child ∈ elements, child.IsInline) :
    NodesAreLines elements :=
  fun _ _ member => .inline (inline _ member)

theorem NodesAreLines.cons_leaf
    (nodes : NodesAreLines elements)
    (kind : Kind)
    (text : String) :
    NodesAreLines (.leaf kind text :: elements) := by
  intro nodeKind children member
  rcases List.mem_cons.mp member with here | later
  · cases here
  · exact nodes nodeKind children later

theorem NodesAreLines.tail
    (nodes : NodesAreLines (first :: others)) :
    NodesAreLines others :=
  fun kind children member =>
    nodes kind children (List.mem_cons_of_mem first member)

/-- A node among the elements of a line has a shape that the builder reads. -/
theorem nodeShape_of_isInline
    (shape : (Element.node kind children).IsInline) :
    NodeShape kind children := by
  generalize whole : Element.node kind children = element at shape
  cases shape with
  | token lexed visible => cases whole
  | @styled mark style content closing isStyle inside =>
      cases whole
      refine .container ?_ ?_
      · revert isStyle
        cases mark.kind <;> intro isStyle <;> cases isStyle <;> decide
      · refine NodesAreLines.cons_leaf ?_ _ _
        intro nodeKind inner member
        rcases List.mem_append.mp member with inContent | inClosing
        · exact .inline (inside _ inContent)
        · obtain ⟨token, _, equal⟩ := List.mem_map.mp inClosing
          cases equal
  | span opens closes openingLexed closingLexed lexed =>
      cases whole
      rcases opens with ⟨isBacktick, rfl⟩ | ⟨isQuote, rfl⟩
      · exact .literal (openingLexed.text_of_backtick isBacktick)
          (closingLexed.text_of_backtick (closes.trans isBacktick)) lexed
      · exact .whole rfl (Element.literalsOf_eq_nil_of_leaves
          (by simp [Element.ofToken, Element.ofDelimiter, or_imp, forall_and]))
  | checkbox opening tick closing =>
      cases whole
      exact .whole rfl rfl
  | textbox opening blanks closing =>
      cases whole
      exact .whole rfl (Element.literalsOf_eq_nil_of_leaves
        (by simp [Element.ofDelimiter, or_imp, forall_and]))
  | hashtag name =>
      cases whole
      exact .whole rfl rfl
  | call name opening inside closing =>
      cases whole
      refine .whole rfl ?_
      rw [Element.literalsOf_cons, Element.literalsOf_node (by decide)]
      exact Element.literalsOf_eq_nil_of_leaves
        (by simp [Element.ofToken, Element.ofDelimiter, or_imp, forall_and])
  | mention name =>
      cases whole
      exact .whole rfl rfl

/-- A node that is a line has a shape that the builder reads. -/
theorem nodeShape_of_isLine
    (shape : (Element.node kind children).IsLine) :
    NodeShape kind children := by
  generalize whole : Element.node kind children = element at shape
  cases shape with
  | inline inline => exact nodeShape_of_isInline (whole ▸ inline)
  | ending lexed newline => cases whole
  | marked marker isMarked content =>
      cases whole
      refine .container ?_ ?_
      · cases isMarked <;> decide
      · refine NodesAreLines.cons_leaf ?_ _ _
        exact fun nodeKind inner member => content.isLine _ member
  | table rows =>
      cases whole
      exact .table rows
  | codeBlock leaves =>
      cases whole
      exact .whole rfl (Element.literalsOf_eq_nil_of_leaves leaves)

/-- A node with the shape of a row is of the kind of rows, and its children have the
shapes of parts of a row. -/
theorem isRow_node
    (shape : (Element.node kind children).IsRow) :
    kind = .tableRow ∧ ∀ part ∈ children, part.IsRowPart := by
  cases shape with
  | row parts => exact ⟨rfl, parts⟩

/-- A node with the shape of a part of a row is a cell of elements within a line. -/
theorem isRowPart_node
    (shape : (Element.node kind children).IsRowPart) :
    kind = .tableCell ∧ ∀ child ∈ children, child.IsInline := by
  generalize whole : Element.node kind children = element at shape
  cases shape with
  | bar token => cases whole
  | blank lexed space => cases whole
  | cell content =>
      cases whole
      exact ⟨rfl, content⟩

/-- A leaf in a row is a bar or a blank. -/
theorem isRowPart_leaf
    {kind : Kind}
    {text : String}
    (shape : (Element.leaf kind text).IsRowPart) :
    kind.isMarkup = true ∨
      ∀ character ∈ text.toList, Text.isBlank character = true := by
  generalize whole : Element.leaf kind text = element at shape
  cases shape with
  | bar token =>
      cases whole
      exact .inl rfl
  | blank lexed space =>
      cases whole
      exact .inr (lexed.isBlank_of_mem space)
  | cell content => cases whole

/-! ## What the builder makes of nodes -/

/-- A block that holds others and no text of its own has their content. -/
theorem sameContent_of_children
    {block : Block}
    {inner blocks : List Block}
    (holds : subblocks block = block :: inner)
    (noText : ownText block = "")
    (noLiteral : literal? block = none)
    (same : SameContent inner blocks) :
    SameContent (subblocksOf [block]) blocks := by
  have alone : subblocksOf [block] = block :: inner := by
    rw [subblocksOf_cons, holds, subblocksOf, List.append_nil]
  refine ⟨?_, ?_⟩
  · rw [alone, characters, List.flatMap_cons, noText]
    exact same.characters
  · rw [alone, List.filterMap_cons_none noLiteral]
    exact same.literals

/-- A container holds the blocks of its children, some trimmed. -/
theorem sameContent_container
    {kind : Kind}
    {children : List Element}
    {block : Block}
    (container : kind ∈ [.heading, .bold, .italics, .underline, .strikeout,
      .orderedItem, .unorderedItem])
    (read : blockOf kind children = .ok block) :
    ∃ blocks, blocksOf "" children = .ok blocks ∧
      SameContent (subblocksOf [block]) (subblocksOf blocks) := by
  simp only [List.mem_cons, List.not_mem_nil, or_false] at container
  rcases container with rfl | rfl | rfl | rfl | rfl | isOrdered | isUnordered
  · obtain ⟨level, blocks, _, inside, rfl⟩ := ok_of_heading read
    exact ⟨blocks, inside, sameContent_of_children (by rw [subblocks]) rfl rfl
      (sameContent_trimBlocks blocks)⟩
  iterate 4
    rw [blockOf] at read
    obtain ⟨blocks, inside, rfl⟩ := ok_of_map read
    exact ⟨blocks, inside,
      sameContent_of_children (by rw [subblocks]) rfl rfl (.refl _)⟩
  · subst isOrdered
    obtain ⟨number, blocks, inside, rfl⟩ := ok_of_orderedItem read
    exact ⟨blocks, inside, sameContent_of_children (by rw [subblocks]) rfl rfl
      (sameContent_trimBlocks blocks)⟩
  · subst isUnordered
    rw [blockOf] at read
    obtain ⟨blocks, inside, rfl⟩ := ok_of_map read
    exact ⟨blocks, inside, sameContent_of_children (by rw [subblocks]) rfl rfl
      (sameContent_trimBlocks blocks)⟩

section

variable {opening closing : Token} {inside : List Token}

/-- All leaves of a list of leaves are open. -/
theorem openLeavesOf_of_leaves
    {elements : List Element}
    (leaves : ∀ element ∈ elements, ∃ kind text, element = .leaf kind text) :
    Element.openLeavesOf elements = Element.leavesOf elements := by
  induction elements with
  | nil => rfl
  | cons first others inductionHypothesis =>
      obtain ⟨kind, text, rfl⟩ := leaves first List.mem_cons_self
      rw [Element.openLeavesOf, Element.leavesOf,
        inductionHypothesis fun element member =>
          leaves element (List.mem_cons_of_mem _ member)]
      rfl

/-- The leaves of tokens between two delimiters. -/
theorem leaves_enclosed (kind : Kind) :
    (Element.node kind
      (.ofDelimiter opening :: inside.map .ofToken ++
        [.ofDelimiter closing])).leaves =
      ⟨.delimiter, opening.text⟩ :: inside ++ [⟨.delimiter, closing.text⟩] := by
  rw [Element.leaves, List.cons_append, Element.leavesOf,
    Element.leavesOf_append, Element.leavesOf_ofTokens]
  rfl

/-- No token of the lexer is markup. -/
theorem filter_not_markup (lexed : AllLexed inside) :
    inside.filter (fun token => !token.kind.isMarkup) = inside := by
  rw [List.filter_eq_self]
  intro token member
  rw [(lexed token member).not_markup]
  rfl

/-- The content of a node between delimiters is the text of its tokens. -/
theorem content_enclosed
    (kind : Kind)
    (lexed : AllLexed inside) :
    (Element.node kind
      (.ofDelimiter opening :: inside.map .ofToken ++
        [.ofDelimiter closing])).content =
      String.join (inside.map Token.text) := by
  rw [Element.content, leaves_enclosed, List.filter_append,
    List.filter_cons_of_neg (by simp [Kind.isMarkup]), filter_not_markup lexed,
    List.filter_cons_of_neg (by simp [Kind.isMarkup]), List.filter_nil,
    List.append_nil]

/-- A literal holds what stands between its delimiters. -/
theorem keeps_literal
    (openingText : opening.text = "`")
    (closingText : closing.text = "`")
    (lexed : AllLexed inside) :
    Keeps ""
      [.literal (Element.node .literal
        (.ofDelimiter opening :: inside.map .ofToken ++
          [.ofDelimiter closing])).content]
      [.node .literal
        (.ofDelimiter opening :: inside.map .ofToken ++
          [.ofDelimiter closing])] := by
  have leaves : ∀ child ∈ Element.ofDelimiter opening ::
      inside.map .ofToken ++ [.ofDelimiter closing],
      ∃ kind text, child = Element.leaf kind text := by
    simp [Element.ofToken, Element.ofDelimiter, or_imp, forall_and]
  have inner : Element.openLeavesOf [.node .literal
      (.ofDelimiter opening :: inside.map .ofToken ++
        [.ofDelimiter closing])] =
      ⟨.delimiter, opening.text⟩ :: inside ++ [⟨.delimiter, closing.text⟩] := by
    rw [Element.openLeavesOf, Element.openLeaves, if_neg (by decide),
      openLeavesOf_of_leaves leaves]
    exact (List.append_nil _).trans (leaves_enclosed .literal)
  rw [content_enclosed .literal lexed]
  refine ⟨?_, ?_⟩
  · rw [inner, Element.characters, List.filter_append,
      List.filter_cons_of_neg (by simp [Kind.isMarkup]),
      filter_not_markup lexed,
      List.filter_cons_of_neg (by simp [Kind.isMarkup]), List.filter_nil,
      List.append_nil, ← List.flatMap_map, ← String.toList_join]
    simp [characters, ownText]
  · rw [Element.literalsOf_literal, Element.literalsOf_eq_nil_of_leaves leaves,
      List.map_singleton, Element.text, leaves_enclosed, List.map_append,
      List.map_cons, openingText, List.map_singleton, closingText,
      String.join_append, String.join_cons]
    simp [literal?, quoted]

end

/-- A node read as a whole holds no text of its own. -/
theorem keeps_whole
    {kind : Kind}
    {children : List Element}
    {block : Block}
    (whole : kind.isOpaque = true)
    (noLiterals : Element.literalsOf children = [])
    (read : blockOf kind children = .ok block) :
    Keeps "" (subblocksOf [block]) [.node kind children] := by
  have noBlocks : characters (subblocksOf [block]) = [] ∧
      (subblocksOf [block]).filterMap literal? = [] := by
    cases kind <;> cases whole <;> rw [blockOf] at read
    case hashtag =>
      obtain ⟨hashtag, _, rfl⟩ := ok_of_map read
      exact ⟨rfl, rfl⟩
    all_goals
      cases read
      exact ⟨rfl, rfl⟩
  refine ⟨?_, ?_⟩
  · rw [noBlocks.1, Element.openLeavesOf, Element.openLeaves, if_pos whole]
    rfl
  · rw [noBlocks.2, Element.literalsOf_node, noLiterals]
    · rfl
    · rintro rfl
      cases whole

/-! ## The builder -/

/-- The block of a node keeps its content, when the blocks and the rows made of
its children do. -/
theorem keeps_blockOf
    {kind : Kind}
    {children : List Element}
    {block : Block}
    (shape : NodeShape kind children)
    (read : blockOf kind children = .ok block)
    (inside : ∀ blocks, NodesAreLines children →
      blocksOf "" children = .ok blocks →
        Keeps "" (subblocksOf blocks) children)
    (insideRows : ∀ rows, (∀ row ∈ children, row.IsRow) →
      rowsOf children = .ok rows → Keeps "" (subblocksOfRows rows) children) :
    Keeps "" (subblocksOf [block]) [.node kind children] := by
  cases shape with
  | container isContainer nodes =>
      obtain ⟨blocks, readInside, same⟩ := sameContent_container isContainer read
      have keeps := (inside blocks nodes readInside).of_sameContent same
      refine keeps.node kind ?_ ?_
      · revert isContainer
        cases kind <;> decide
      · rintro rfl
        revert isContainer
        decide
  | literal openingText closingText lexed =>
      rw [blockOf] at read
      cases read
      exact keeps_literal openingText closingText lexed
  | whole isWhole noLiterals => exact keeps_whole isWhole noLiterals read
  | table rows =>
      rw [blockOf] at read
      obtain ⟨table, readRows, rfl⟩ := ok_of_map read
      have keeps := (insideRows table rows readRows).node .table rfl (by decide)
      exact keeps.of_sameContent
        (sameContent_of_children (by rw [subblocks]) rfl rfl (.refl _))

mutual

/-- The blocks made of elements keep the content of the elements, after the text that
was gathered before them. -/
theorem keeps_blocksOf :
    ∀ elements text blocks, NodesAreLines elements →
      blocksOf text elements = .ok blocks →
        Keeps text (subblocksOf blocks) elements
  | [], text, blocks, _, read => by
      rw [blocksOf] at read
      cases read
      have nothing : Keeps "" (subblocksOf []) [] := .nil
      exact nothing.withText text
  | .leaf kind more :: others, text, blocks, nodes, read => by
      rw [blocksOf] at read
      exact (keeps_blocksOf others _ blocks nodes.tail read).leaf
  | .node kind children :: others, text, blocks, nodes, read => by
      obtain ⟨block, later, readBlock, readOthers, rfl⟩ := ok_of_blocksOf read
      have shape := nodeShape_of_isLine (nodes kind children List.mem_cons_self)
      have here := keeps_blockOf shape readBlock
        (fun blocks => keeps_blocksOf children "" blocks)
        (fun rows => keeps_rowsOf children rows)
      have after := keeps_blocksOf others "" later nodes.tail readOthers
      have both := here.append after
      rw [← subblocksOf_append] at both
      exact both.withText text

/-- The rows made of elements keep their content. -/
theorem keeps_rowsOf :
    ∀ elements rows, (∀ row ∈ elements, row.IsRow) →
      rowsOf elements = .ok rows →
        Keeps "" (subblocksOfRows rows) elements
  | [], rows, _, read => by
      rw [rowsOf] at read
      cases read
      exact .nil
  | .leaf kind text :: others, rows, areRows, read =>
      nomatch areRows _ List.mem_cons_self
  | .node kind children :: others, rows, areRows, read => by
      obtain ⟨rfl, areParts⟩ := isRow_node (areRows _ List.mem_cons_self)
      obtain ⟨row, later, readCells, readOthers, rfl⟩ := ok_of_rowsOf read
      have here := keeps_cellsOf children row areParts readCells
      have after := keeps_rowsOf others later
        (fun row member => areRows row (List.mem_cons_of_mem _ member)) readOthers
      rw [subblocksOfRows]
      exact (here.node .tableRow rfl (by decide)).append after

/-- The cells made of elements keep their content. -/
theorem keeps_cellsOf :
    ∀ elements cells, (∀ part ∈ elements, part.IsRowPart) →
      cellsOf elements = .ok cells →
        Keeps "" (subblocksOfGroups cells) elements
  | [], cells, _, read => by
      rw [cellsOf] at read
      cases read
      exact .nil
  | .leaf kind text :: others, cells, areParts, read => by
      rw [cellsOf] at read
      have keeps := keeps_cellsOf others cells
        (fun part member => areParts part (List.mem_cons_of_mem _ member)) read
      exact keeps.skip (isRowPart_leaf (areParts _ List.mem_cons_self))
  | .node kind children :: others, cells, areParts, read => by
      obtain ⟨rfl, inline⟩ := isRowPart_node (areParts _ List.mem_cons_self)
      obtain ⟨cell, later, readCell, readOthers, rfl⟩ := ok_of_cellsOf read
      have here := keeps_blocksOf children "" cell
        (nodesAreLines_of_inline inline) readCell
      have after := keeps_cellsOf others later
        (fun part member => areParts part (List.mem_cons_of_mem _ member))
        readOthers
      have trimmed := here.of_sameContent (sameContent_trimBlocks cell)
      rw [subblocksOfGroups]
      exact (trimmed.node .tableCell rfl (by decide)).append after

end

/-- The paragraphs of a document keep the content of the elements they are made of. -/
theorem keeps_paragraphsOf
    (elements : List Element)
    (document : Document)
    (areSections : ∀ element ∈ elements, element.IsSection)
    (read : paragraphsOf elements = .ok document) :
    Keeps "" (subblocksOfGroups document) elements := by
  induction elements generalizing document with
  | nil =>
      cases read
      exact .nil
  | cons element others inductionHypothesis =>
      have later := fun document =>
        inductionHypothesis document fun element member =>
          areSections element (List.mem_cons_of_mem _ member)
      cases areSections element List.mem_cons_self with
      | blank lexed space =>
          exact (later document read).skip (.inr (lexed.isBlank_of_mem space))
      | @paragraph children areLines =>
          obtain ⟨blocks, paragraphs, readBlocks, readOthers, rfl⟩ :=
            ok_of_paragraphsOf read
          have here := keeps_blocksOf children "" blocks
            (fun kind inner member => areLines _ member) readBlocks
          have trimmed := here.of_sameContent (sameContent_trimBlocks blocks)
          rw [subblocksOfGroups]
          exact (trimmed.node .paragraph rfl (by decide)).append
            (later paragraphs readOthers)

end Reading

open Markup

/-- A document that a source holds has all its content: its texts and literals
have, in order, the characters of the leaves of the tree that are neither markup
nor inside a quotation, a hashtag, a mention, a box or a code block, but for
blanks; and its literals are, in order, what stands between the delimiters of the
literals of the tree. -/
theorem ofSource_keeps_content
    (source : String)
    (document : Document)
    (read : ofSource source = .ok document) :
    visibleCharacters document = (parse source).visibleCharacters ∧
    (literals document).map (fun text => "`" ++ text ++ "`") =
      ((parse source).subtrees.filter Element.isLiteral).map Element.text := by
  have keeps := Reading.keeps_paragraphsOf _ document
    (isSection_of_mem_parse source) read
  have ofRoot := keeps.node .root rfl (by decide)
  refine ⟨?_, ?_⟩
  · have characters := ofRoot.characters
    rw [String.toList_empty, List.nil_append, Element.openLeavesOf,
      Element.openLeavesOf, List.append_nil] at characters
    exact characters
  · have literals := ofRoot.literals
    rw [Element.literalsOf, Element.subtreesOf, Element.subtreesOf,
      List.append_nil] at literals
    exact literals

/-- A literal with two blanks in it and a table cell. -/
theorem ofSource_keeps_content_literal_cell :
    ∃ document, ofSource "a `b  c`\n\n| *d* |\n" = .ok document ∧
      visibleCharacters document = ['a', 'b', 'c', 'd'] ∧
      (literals document).map (fun text => "`" ++ text ++ "`") =
        ["`b  c`"] := by
  have isDocument : (ofSource "a `b  c`\n\n| *d* |\n").isOk = true := by
    decide +kernel
  cases read : ofSource "a `b  c`\n\n| *d* |\n" with
  | error malformation =>
      rw [read] at isDocument
      cases isDocument
  | ok document =>
      obtain ⟨characters, literals⟩ := ofSource_keeps_content _ document read
      exact ⟨document, rfl, characters.trans (by decide +kernel),
        literals.trans (by decide +kernel)⟩

end Document
end NotePress
