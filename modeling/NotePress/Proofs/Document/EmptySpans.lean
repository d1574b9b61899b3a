import NotePress.Proofs.Document.PlainText
import NotePress.Proofs.Document.Styles
import NotePress.Proofs.Document.WellFormed
import NotePress.Proofs.Markup.DoubledDelimiters

/-!
# Styled blocks without content

A styled block without children comes from a span with nothing in it, and every
such span becomes one. So two delimiters in a row are dropped from a document
exactly where the first of them may start a span (`emptyBlock_mem_ofSource_iff`).
-/

namespace NotePress
namespace Document

open Markup

namespace Style

/-- Different styles have spans of different kinds. -/
theorem spanKind_injective
    {first second : Style}
    (same : first.spanKind = second.spanKind) :
    first = second := by
  cases first <;> cases second <;> first | rfl | cases same

/-- A span of a style with nothing in it. -/
def emptySpan (style : Style) : Element :=
  Markup.emptySpan style.spanKind style.mark

end Style

namespace Reading

/-! ## What is read from nothing -/

/-- A text is not read as nothing. -/
theorem ne_nil_of_text
    (nonempty : text ≠ "")
    (read : blocksOf text elements = .ok blocks) :
    blocks ≠ [] := by
  induction elements generalizing text with
  | nil =>
      rw [blocksOf] at read
      cases read
      simp [withText, nonempty]
  | cons first others inductionHypothesis =>
      cases first with
      | leaf kind more =>
          rw [blocksOf] at read
          apply inductionHypothesis _ read
          split
          · exact nonempty
          · simp [nonempty]
      | node kind children =>
          obtain ⟨block, later, _, _, rfl⟩ := ok_of_blocksOf read
          simp [withText, nonempty]

/-- The elements of a line are not read as nothing. -/
theorem ne_nil_of_members
    (members : ∀ child ∈ content, Inline.IsMember stops child)
    (nonempty : content ≠ [])
    (read : blocksOf "" content = .ok blocks) :
    blocks ≠ [] := by
  cases content with
  | nil => exact absurd rfl nonempty
  | cons first others =>
      cases members first List.mem_cons_self with
      | @token token lexed _ =>
          rw [Element.ofToken, blocksOf, if_neg (by simp [lexed.not_markup]),
            String.empty_append] at read
          apply ne_nil_of_text _ read
          obtain ⟨character, rest, rfl⟩ := lexed
          exact Lexer.text_nextToken_ne_empty character rest
      | node =>
          obtain ⟨block, later, _, _, rfl⟩ := ok_of_blocksOf read
          simp [withText]

/-- A span is read as nothing exactly when there is nothing in it. -/
theorem eq_nil_iff_emptySpan
    (production : Production kind children following)
    (isStyle : mark.style? = some kind)
    (read : blocksOf "" children = .ok blocks) :
    blocks = [] ↔ emptySpan kind mark = .node kind children := by
  have isMarkup : Kind.delimiter.isMarkup = true := rfl
  have isSign := Lexer.punctuation_sign_of_style isStyle
  cases production with
  | atom _ _ atom => exact absurd isStyle (atom.inline.2 mark)
  | @closed token rest style content last closing middle _ lexed opened inside
      isClosing =>
      obtain rfl := Inline.style_injective opened isStyle
      have closingLexed : closing.IsLexed :=
        (lexed.of_cons.of_suffix inside.reads.suffix).head
      rw [List.cons_append, Element.ofDelimiter, blocksOf, if_pos isMarkup,
        Element.ofDelimiter, blocksOf_append_markup isMarkup] at read
      constructor
      · intro nothing
        have noContent : content = [] := by
          by_contra nonempty
          exact ne_nil_of_members (inside.isMember lexed.of_cons) nonempty read
            nothing
        rw [noContent, Element.ofDelimiter, Element.ofDelimiter,
          closingLexed.text_of_sign isClosing isSign,
          lexed.head.text_of_sign rfl isSign]
        rfl
      · intro same
        have noContent : content = [] := by
          cases content with
          | nil => rfl
          | cons first others => simp [emptySpan] at same
        rw [noContent, blocksOf] at read
        cases read
        rfl
  | unclosed lexed opened opens inside ended =>
      obtain rfl := Inline.style_injective opened isStyle
      obtain ⟨swallowing, isChild, _⟩ :=
        Inline.exists_swallowing lexed isStyle opens inside ended
      rw [Element.ofDelimiter, blocksOf, if_pos isMarkup] at read
      exact iff_of_false
        (ne_nil_of_members (inside.isMember lexed.of_cons)
          (List.ne_nil_of_mem isChild) read)
        (Inline.emptySpan_ne_unclosed isStyle lexed.of_cons inside)
  | marked _ marker =>
      cases marker <;> cases mark <;> cases isStyle
  | _ => cases mark <;> cases isStyle

/-! ## Styled blocks in a document -/

/-- A block other than a text is not touched by trimming. -/
theorem mem_trimBlocks_iff (notText : block.isText = false) :
    block ∈ trimBlocks blocks ↔ block ∈ blocks := by
  constructor
  · intro member
    exact (mem_trimBlocks member).resolve_left (by simp [notText])
  · intro member
    have atEnd : block ∈ trimLast blocks := by
      induction blocks using trimLast.induct with
      | case1 => cases member
      | case2 text =>
          rw [List.mem_singleton.mp member] at notText
          cases notText
      | case3 single other =>
          rw [trimLast]
          · exact member
          · exact other
      | case4 first second others inductionHypothesis =>
          rw [trimLast]
          rcases List.mem_cons.mp member with rfl | later
          · exact List.mem_cons_self
          · exact List.mem_cons_of_mem first (inductionHypothesis later)
    rw [trimBlocks]
    unfold trimFirst withText
    split
    · rename_i text others same
      rw [same] at atEnd
      rcases List.mem_cons.mp atEnd with rfl | later
      · cases notText
      · split
        · exact later
        · exact List.mem_cons_of_mem _ later
    · exact atEnd

/-- The styled blocks of a style without children, among the blocks that some
elements are read as, come from the spans with nothing in them. -/
def Empties
    (style : Style)
    (elements : List Element)
    (blocks : List Block) : Prop :=
  .styled style [] ∈ blocks ↔ style.emptySpan ∈ Element.subtreesOf elements

namespace Empties

theorem nil : Empties style [] [] :=
  ⟨fun member => (List.not_mem_nil member).elim,
    fun member => (List.not_mem_nil member).elim⟩

/-- Empty spans side by side become empty blocks side by side. -/
theorem append
    (first : Empties style elements blocks)
    (second : Empties style others later) :
    Empties style (elements ++ others) (blocks ++ later) := by
  unfold Empties at *
  rw [List.mem_append, first, second, Element.subtreesOf_append,
    List.mem_append]

/-- Elements without styled spans. -/
theorem of_unstyled
    (plain : AreUnstyled elements)
    (other : .styled style [] ∉ blocks) :
    Empties style elements blocks := by
  refine iff_of_false other fun member => ?_
  have unstyled : style.spanKind.isStyled = false := plain _ _ member
  cases style <;> cases unstyled

theorem leaf
    (later : Empties style others blocks)
    (kind : Kind)
    (text : String) :
    Empties style (.leaf kind text :: others) blocks :=
  (of_unstyled (AreUnstyled.nil.leaf kind text) List.not_mem_nil).append later

/-- A node other than a styled span has the empty blocks of its content. -/
theorem node
    {kind : Kind}
    (inside : Empties style children blocks)
    (unstyled : kind.isStyled = false) :
    Empties style [.node kind children] blocks := by
  unfold Empties at *
  have notSpan : style.emptySpan ≠ .node kind children := by
    rintro ⟨⟩
    cases style <;> cases unstyled
  rw [inside, Element.subtreesOf, Element.subtrees, Element.subtreesOf,
    List.append_nil, List.mem_cons, or_iff_right notSpan]

theorem cons
    (inside : Empties style elements blocks)
    (other : block ≠ .styled style []) :
    Empties style elements (block :: blocks) := by
  unfold Empties at *
  rw [List.mem_cons, or_iff_right other.symm, inside]

/-- A text in front of blocks is no empty block. -/
theorem withText
    (inside : Empties style elements (subblocksOf blocks))
    (text : String) :
    Empties style elements (subblocksOf (Reading.withText text blocks)) := by
  unfold Reading.withText
  split
  · exact inside
  · rw [subblocksOf_cons, subblocks_text]
    exact inside.cons (by rintro ⟨⟩)

/-- Trimming drops no styled block. -/
theorem trimBlocks (inside : Empties style elements (subblocksOf blocks)) :
    Empties style elements (subblocksOf (Reading.trimBlocks blocks)) := by
  unfold Empties at *
  rw [← inside, mem_subblocksOf, mem_subblocksOf]
  constructor
  all_goals
    rintro ⟨outer, member, below⟩
    have notText : outer.isText = false := by
      cases outer with
      | text text =>
          rw [subblocks_text, List.mem_singleton] at below
          cases below
      | _ => rfl
  · exact ⟨outer, (mem_trimBlocks_iff notText).mp member, below⟩
  · exact ⟨outer, (mem_trimBlocks_iff notText).mpr member, below⟩

end Empties

/-- What an atom makes has no styled span in it. -/
theorem areUnstyled_of_atom
    (production : Production kind children following)
    (inline : kind.isInline = true)
    (unstyled : kind.isStyled = false) :
    AreUnstyled [.node kind children] := by
  obtain ⟨token, rest, last, after, lexed, atom⟩ :=
    production.exists_atom inline fun mark isStyle => by
      rw [(Inline.sign_of_style isStyle).2] at unstyled
      cases unstyled
  exact atom.areUnstyled

section

variable (style : Style)

/-- A styled block is empty exactly when its span is. -/
theorem empties_styled
    (own : Style)
    (production : Production own.spanKind children following)
    (read : blocksOf "" children = .ok blocks)
    (inside : Empties style children (subblocksOf blocks)) :
    Empties style [.node own.spanKind children]
      (subblocks (.styled own blocks)) := by
  have isEmpty := eq_nil_iff_emptySpan production own.style_mark read
  unfold Empties at *
  rw [subblocks, List.mem_cons, inside, Element.subtreesOf, Element.subtrees,
    Element.subtreesOf, List.append_nil, List.mem_cons]
  refine or_congr_left ⟨?_, ?_⟩
  · intro same
    cases same
    exact isEmpty.mp rfl
  · intro same
    obtain rfl := Style.spanKind_injective (Element.node.inj same).1
    rw [isEmpty.mpr same]

/-- The block of a node has the empty blocks of the node, when the blocks and
rows of its children do. -/
theorem empties_blockOf
    (production : Production kind children following)
    (held : Kind.paragraph.holds kind = true)
    (grown : Grown kind children)
    (inside : ∀ blocks, Grown .paragraph children →
      blocksOf "" children = .ok blocks →
        Empties style children (subblocksOf blocks))
    (insideRows : ∀ rows, Grown .table children →
      rowsOf children = .ok rows →
        Empties style children (subblocksOfRows rows))
    (read : blockOf kind children = .ok block) :
    Empties style [.node kind children] (subblocks block) := by
  cases kind with
  | heading =>
      obtain ⟨level, blocks, _, readBlocks, rfl⟩ := ok_of_heading read
      have content := inside blocks (grown.of_container (by decide)) readBlocks
      rw [subblocks]
      exact (content.trimBlocks.node rfl).cons (by rintro ⟨⟩)
  | orderedItem =>
      obtain ⟨number, blocks, readBlocks, rfl⟩ := ok_of_orderedItem read
      have content := inside blocks (grown.of_container (by decide)) readBlocks
      rw [subblocks]
      exact (content.trimBlocks.node rfl).cons (by rintro ⟨⟩)
  | unorderedItem =>
      rw [blockOf] at read
      obtain ⟨blocks, readBlocks, rfl⟩ := ok_of_map read
      have content := inside blocks (grown.of_container (by decide)) readBlocks
      rw [subblocks]
      exact (content.trimBlocks.node rfl).cons (by rintro ⟨⟩)
  | bold | italics | underline | strikeout =>
      rw [blockOf] at read
      obtain ⟨blocks, readBlocks, rfl⟩ := ok_of_map read
      exact empties_styled style _ production readBlocks
        (inside blocks (grown.of_container (by decide)) readBlocks)
  | table =>
      rw [blockOf] at read
      obtain ⟨rows, readRows, rfl⟩ := ok_of_map read
      rw [subblocks]
      exact ((insideRows rows grown readRows).node rfl).cons (by rintro ⟨⟩)
  | codeBlock =>
      rw [blockOf] at read
      cases read
      have plain := AreUnstyled.of_leaves (grown.of_leaf fun _ => rfl)
      exact .of_unstyled (plain.node rfl) (by rintro (_ | ⟨_, ⟨⟩⟩))
  | hashtag =>
      rw [blockOf] at read
      obtain ⟨tag, _, rfl⟩ := ok_of_map read
      exact .of_unstyled (areUnstyled_of_atom production rfl rfl)
        (by rintro (_ | ⟨_, ⟨⟩⟩))
  | literal | checkbox | textbox | quotation | mention =>
      rw [blockOf] at read
      cases read
      exact .of_unstyled (areUnstyled_of_atom production rfl rfl)
        (by rintro (_ | ⟨_, ⟨⟩⟩))
  | _ => cases held

mutual

/-- The empty blocks among those of elements come from empty spans. -/
theorem empties_blocksOf :
    ∀ elements text blocks, Grown .paragraph elements →
      blocksOf text elements = .ok blocks →
        Empties style elements (subblocksOf blocks)
  | [], text, blocks, _, read => by
      rw [blocksOf] at read
      cases read
      exact Empties.nil.withText text
  | .leaf kind more :: others, text, blocks, grown, read => by
      rw [blocksOf] at read
      exact (empties_blocksOf others _ blocks grown.tail read).leaf kind more
  | .node kind children :: others, text, blocks, grown, read => by
      obtain ⟨block, later, readBlock, readOthers, rfl⟩ := ok_of_blocksOf read
      obtain ⟨following, production⟩ := grown.production List.mem_cons_self
      have here := empties_blockOf style production
        (grown.held kind children List.mem_cons_self)
        (grown.child List.mem_cons_self)
        (fun blocks => empties_blocksOf children "" blocks)
        (fun rows => empties_rowsOf children rows) readBlock
      have after := empties_blocksOf others "" later grown.tail readOthers
      exact (here.append after).withText text

/-- The empty blocks in rows come from empty spans. -/
theorem empties_rowsOf :
    ∀ elements rows, Grown .table elements →
      rowsOf elements = .ok rows →
        Empties style elements (subblocksOfRows rows)
  | [], rows, _, read => by
      rw [rowsOf] at read
      cases read
      exact .nil
  | .leaf kind text :: others, rows, grown, read => by
      rw [rowsOf] at read
      exact (empties_rowsOf others rows grown.tail read).leaf kind text
  | .node kind children :: others, rows, grown, read => by
      have isRow : kind = .tableRow :=
        eq_of_beq (grown.held kind children List.mem_cons_self)
      subst isRow
      obtain ⟨row, later, readCells, readOthers, rfl⟩ := ok_of_rowsOf read
      have here := empties_cellsOf children row
        (grown.child List.mem_cons_self) readCells
      have after := empties_rowsOf others later grown.tail readOthers
      exact (here.node rfl).append after

/-- The empty blocks in cells come from empty spans. -/
theorem empties_cellsOf :
    ∀ elements cells, Grown .tableRow elements →
      cellsOf elements = .ok cells →
        Empties style elements (subblocksOfGroups cells)
  | [], cells, _, read => by
      rw [cellsOf] at read
      cases read
      exact .nil
  | .leaf kind text :: others, cells, grown, read => by
      rw [cellsOf] at read
      exact (empties_cellsOf others cells grown.tail read).leaf kind text
  | .node kind children :: others, cells, grown, read => by
      have isCell : kind = .tableCell :=
        eq_of_beq (grown.held kind children List.mem_cons_self)
      subst isCell
      obtain ⟨blocks, later, readBlocks, readOthers, rfl⟩ := ok_of_cellsOf read
      have here := empties_blocksOf children "" blocks
        ((grown.child List.mem_cons_self).of_container (by decide)) readBlocks
      have after := empties_cellsOf others later grown.tail readOthers
      exact (here.trimBlocks.node rfl).append after

end

/-- The empty blocks of a document come from empty spans. -/
theorem empties_paragraphsOf
    (grown : Grown .root elements)
    (read : paragraphsOf elements = .ok document) :
    Empties style elements (subblocksOfGroups document) := by
  induction elements generalizing document with
  | nil =>
      cases read
      exact .nil
  | cons first others inductionHypothesis =>
      have later := fun {document} => @inductionHypothesis document grown.tail
      cases first with
      | leaf kind text => exact (later read).leaf kind text
      | node kind children =>
          have isParagraph : kind = .paragraph :=
            eq_of_beq (grown.held kind children List.mem_cons_self)
          subst isParagraph
          obtain ⟨blocks, paragraphs, readBlocks, readOthers, rfl⟩ :=
            ok_of_paragraphsOf read
          have here := empties_blocksOf style children "" blocks
            (grown.child List.mem_cons_self) readBlocks
          exact (here.trimBlocks.node rfl).append (later readOthers)

end

end Reading

/-- A document has a styled block without children exactly when its source has a
delimiter that may start a span of this style where it stands, with another one
right after it. -/
theorem emptyBlock_mem_ofSource_iff
    (style : Style)
    (read : ofSource source = .ok document) :
    .styled style [] ∈ subblocksOfGroups document ↔
      ∃ before opened next after,
        Element.signs false (parse source) =
          before ++ ⟨style.mark, some opened⟩ :: ⟨style.mark, next⟩ :: after ∧
        Inline.opensAfter style.mark (lastKind .endOfInput before) = true := by
  have inside := Reading.empties_paragraphsOf style
    (Reading.grown_parse source) read
  have isRoot : [.node .root (parse source).children] = [parse source] := rfl
  have whole := inside.node (show Kind.root.isStyled = false from rfl)
  rw [isRoot, Reading.Empties, Element.subtreesOf, Element.subtreesOf,
    List.append_nil] at whole
  rw [whole]
  exact emptySpan_mem_parse_iff style.style_mark source

/-- Two dashes between words are dropped. -/
theorem emptyBlock_mem_ofSource_dashes :
    ∃ document,
      ofSource "a -- b" = .ok document ∧
        .styled .strikeout [] ∈ subblocksOfGroups document := by
  have isDocument : (ofSource "a -- b").isOk = true := by decide +kernel
  have doubled : Element.signs false (parse "a -- b") =
      [⟨.text, some false⟩, ⟨.whitespace, some false⟩] ++
        ⟨.dash, some true⟩ :: ⟨.dash, none⟩ ::
          [⟨.whitespace, some false⟩, ⟨.text, some false⟩] := by
    decide +kernel
  cases read : ofSource "a -- b" with
  | error malformation =>
      rw [read] at isDocument
      cases isDocument
  | ok document =>
      exact ⟨document, rfl, (emptyBlock_mem_ofSource_iff .strikeout read).mpr
        ⟨_, _, _, _, doubled, rfl⟩⟩

end Document
end NotePress
