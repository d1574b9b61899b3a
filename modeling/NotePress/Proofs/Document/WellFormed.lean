import Mathlib.Data.List.Chain
import NotePress.Proofs.Document.Malformations
import NotePress.Proofs.Document.Wording

/-!
# Documents that sources hold are well-formed

Whatever a source is, the document read from it keeps the rules that its blocks
rely on: texts are as long as they can be, containers are trimmed, blocks that
take up lines stand directly in paragraphs, and names, numbers and parameters are
what a source can write (`ofSource_isWellFormed`).
-/

namespace NotePress
namespace Document

open Text (StartsVisibly EndsVisibly)

/-! ## Well-formed documents -/

namespace Block

/-- Whether a block is a text. -/
def isText : Block → Bool
  | text _ => true
  | _ => false

/-- Whether a block takes up a line or several. -/
def isLine : Block → Bool
  | heading _ _ | orderedItem _ _ | unorderedItem _ | table _ | codeBlock _ => true
  | _ => false

end Block

/-- Blocks whose texts are as long as they can be: none is empty, and no two are
neighbours. -/
structure AreMerged (blocks : List Block) : Prop where
  nonempty : ∀ text, .text text ∈ blocks → text ≠ ""
  apart :
    blocks.IsChain fun first second =>
      first.isText = false ∨ second.isText = false

/-- Merged blocks that neither start nor end with a blank. -/
structure AreTrimmed (blocks : List Block) : Prop where
  merged : AreMerged blocks
  start : ∀ text, blocks.head? = some (.text text) → StartsVisibly text
  finish : ∀ text, blocks.getLast? = some (.text text) → EndsVisibly text

/-- Blocks that stand within lines. -/
def AreWithinLines (blocks : List Block) : Prop :=
  ∀ block ∈ blocks, block.isLine = false

/-- A hashtag as a source writes it. -/
structure Hashtag.IsWellFormed (hashtag : Hashtag) : Prop where
  named : hashtag.name ≠ ""
  letters : ∀ character ∈ hashtag.name.toList, character.isAlpha = true
  trimmed :
    ∀ parameter ∈ hashtag.parameters,
      StartsVisibly parameter ∧ EndsVisibly parameter
  clean :
    ∀ parameter ∈ hashtag.parameters, ∀ character ∈ parameter.toList,
      character ≠ '|' ∧ character ≠ '\x7d' ∧ character ≠ '\n'

/-- A code block as a source writes it. -/
structure CodeBlock.IsWellFormed (code : CodeBlock) : Prop where
  command : StartsVisibly code.command ∧ EndsVisibly code.command
  lines : ∀ line ∈ code.lines, '\n' ∉ line.toList ∧ EndsVisibly line

/-- A block that keeps the rules for its own kind. -/
def Block.IsWellFormed : Block → Prop
  | .heading level children =>
      (1 ≤ level ∧ level ≤ 255) ∧ AreTrimmed children ∧ AreWithinLines children
  | .orderedItem _ children | .unorderedItem children =>
      AreTrimmed children ∧ AreWithinLines children
  | .styled _ children => AreMerged children ∧ AreWithinLines children
  | .table rows =>
      rows ≠ [] ∧
        ∀ row ∈ rows, ∀ cell ∈ row, AreTrimmed cell ∧ AreWithinLines cell
  | .codeBlock code => code.IsWellFormed
  | .hashtag tag => tag.IsWellFormed
  | .mention name =>
      name ≠ "" ∧
        ∀ character ∈ name.toList,
          character.isAlphanum = true ∨ character = '_'
  | .text _ | .literal _ | .checkbox _ | .textbox | .quotation _ => True

/-- A document whose paragraphs are trimmed and whose blocks, at every depth,
keep the rules for their kinds. -/
structure IsWellFormed (document : Document) : Prop where
  paragraphs : ∀ paragraph ∈ document, AreTrimmed paragraph
  blocks : ∀ block ∈ subblocksOfGroups document, block.IsWellFormed

/-! ## Blocks inside blocks -/

/-- What is inside some blocks is inside one of them. -/
theorem mem_subblocksOf :
    block ∈ subblocksOf blocks ↔ ∃ outer ∈ blocks, block ∈ subblocks outer := by
  induction blocks with
  | nil => simp [subblocksOf]
  | cons first others inductionHypothesis =>
      simp [subblocksOf, inductionHypothesis]

/-! ## Merged blocks -/

namespace AreMerged

theorem nil : AreMerged [] :=
  ⟨fun _ member => absurd member List.not_mem_nil, List.isChain_nil⟩

theorem tail (merged : AreMerged (first :: others)) : AreMerged others :=
  ⟨fun text member => merged.nonempty text (List.mem_cons_of_mem first member),
    merged.apart.tail⟩

/-- What follows a text is no text. -/
theorem next
    (merged : AreMerged (.text text :: others))
    (isNext : others.head? = some second) :
    second.isText = false :=
  ((List.isChain_cons.mp merged.apart).1 second isNext).resolve_left
    Bool.true_eq_false.mp

/-- A block in front of merged ones leaves them merged, when it is not empty and not
beside another text. -/
theorem cons
    (merged : AreMerged others)
    (nonempty : ∀ text, first = .text text → text ≠ "")
    (apart :
      ∀ second, others.head? = some second →
        first.isText = false ∨ second.isText = false) :
    AreMerged (first :: others) := by
  refine ⟨?_, List.isChain_cons.mpr ⟨apart, merged.apart⟩⟩
  intro text member
  rcases List.mem_cons.mp member with isFirst | later
  · exact nonempty text isFirst.symm
  · exact merged.nonempty text later

/-- A block that is no text may stand in front of merged ones. -/
theorem other
    (merged : AreMerged others)
    (notText : first.isText = false) :
    AreMerged (first :: others) := by
  apply merged.cons
  · rintro text rfl
    cases notText
  · exact fun _ _ => .inl notText

/-- A text in front of merged blocks leaves them merged, when they start with no
text. -/
theorem withText
    (merged : AreMerged others)
    (apart : ∀ second, others.head? = some second → second.isText = false)
    (text : String) :
    AreMerged (Reading.withText text others) := by
  unfold Reading.withText
  split
  · exact merged
  · rename_i nonempty
    apply merged.cons
    · rintro _ ⟨⟩ rfl
      exact nonempty rfl
    · exact fun second isNext => .inr (apart second isNext)

end AreMerged

namespace Reading

open Markup

/-! ## Trimmed blocks -/

/-- Trimming the first of merged blocks leaves them merged. -/
theorem areMerged_trimFirst (merged : AreMerged blocks) :
    AreMerged (trimFirst blocks) := by
  unfold trimFirst
  split
  · exact merged.tail.withText (fun _ => merged.next) _
  · exact merged

/-- A text at the start of trimmed blocks starts with something visible. -/
theorem startsVisibly_trimFirst
    (merged : AreMerged blocks)
    (isFirst : (trimFirst blocks).head? = some (.text text)) :
    StartsVisibly text := by
  unfold trimFirst at isFirst
  split at isFirst
  · unfold withText at isFirst
    split at isFirst
    · cases merged.next isFirst
    · cases isFirst
      exact Text.startsVisibly_trimStart _
  · rename_i noText
    obtain ⟨others, rfl⟩ := List.head?_eq_some_iff.mp isFirst
    exact (noText _ _ rfl).elim

/-- Trimming the start leaves the end as it is. -/
theorem endsVisibly_trimFirst
    (finish : ∀ text, blocks.getLast? = some (.text text) → EndsVisibly text)
    (isLast : (trimFirst blocks).getLast? = some (.text text)) :
    EndsVisibly text := by
  unfold trimFirst at isLast
  split at isLast
  · rename_i start others
    rw [List.getLast?_cons] at finish
    unfold withText at isLast
    split at isLast
    · rw [isLast] at finish
      exact finish text rfl
    · rw [List.getLast?_cons] at isLast
      cases ending : others.getLast? with
      | none =>
          rw [ending] at finish isLast
          cases isLast
          exact (finish start rfl).trimStart
      | some last =>
          rw [ending] at finish isLast
          exact finish text isLast
  · exact finish text isLast

/-- A block that is no text stays at the start. -/
theorem trimLast_other
    (notText : first.isText = false)
    (others : List Block) :
    ∃ rest, trimLast (first :: others) = first :: rest := by
  cases others with
  | nil =>
      cases first with
      | text => cases notText
      | _ => exact ⟨[], rfl⟩
  | cons second others =>
      rw [trimLast]
      exact ⟨_, rfl⟩

/-- Trimming the last of merged blocks leaves them merged. -/
theorem areMerged_trimLast (merged : AreMerged blocks) :
    AreMerged (trimLast blocks) := by
  induction blocks using trimLast.induct with
  | case1 => exact merged
  | case2 text =>
      rw [trimLast]
      apply AreMerged.nil.withText
      intro second isNext
      cases isNext
  | case3 block notText =>
      rw [trimLast]
      · exact merged
      · exact notText
  | case4 first second others inductionHypothesis =>
      rw [trimLast]
      apply (inductionHypothesis merged.tail).cons
      · rintro text rfl
        exact merged.nonempty text List.mem_cons_self
      · intro next isNext
        rcases (List.isChain_cons_cons.mp merged.apart).1 with here | later
        · exact .inl here
        · obtain ⟨rest, kept⟩ := trimLast_other later others
          rw [kept] at isNext
          cases isNext
          exact .inr later

/-- A text at the end of trimmed blocks ends with something visible. -/
theorem endsVisibly_trimLast
    (merged : AreMerged blocks)
    (isLast : (trimLast blocks).getLast? = some (.text text)) :
    EndsVisibly text := by
  induction blocks using trimLast.induct with
  | case1 => cases isLast
  | case2 own =>
      rw [trimLast, withText] at isLast
      split at isLast
      · cases isLast
      · cases isLast
        exact Text.endsVisibly_trimEnd own
  | case3 block notText =>
      rw [trimLast] at isLast
      · cases isLast
        exact (notText text rfl).elim
      · exact notText
  | case4 first second others inductionHypothesis =>
      rw [trimLast, List.getLast?_cons] at isLast
      apply inductionHypothesis merged.tail
      cases ending : (trimLast (second :: others)).getLast? with
      | some last =>
          rw [ending] at isLast
          exact isLast
      | none =>
          -- The last text was blank, so what is before it is no text.
          rw [ending] at isLast
          cases isLast
          obtain ⟨rest, kept⟩ := trimLast_other (merged.next rfl) others
          rw [kept, List.getLast?_eq_none_iff] at ending
          cases ending

/-- Trimming merged blocks at both ends leaves them merged, and trimmed. -/
theorem areTrimmed_trimBlocks (merged : AreMerged blocks) :
    AreTrimmed (trimBlocks blocks) := by
  have atEnd := areMerged_trimLast merged
  refine ⟨areMerged_trimFirst atEnd, ?_, ?_⟩
  · exact fun text => startsVisibly_trimFirst atEnd
  · exact fun text => endsVisibly_trimFirst
      fun text => endsVisibly_trimLast merged

/-- Trimming changes texts only. -/
theorem mem_trimBlocks (member : block ∈ trimBlocks blocks) :
    block.isText = true ∨ block ∈ blocks := by
  have inFirst {others : List Block} (member : block ∈ trimFirst others) :
      block.isText = true ∨ block ∈ others := by
    unfold trimFirst withText at member
    split at member
    · split at member
      · exact .inr (List.mem_cons_of_mem _ member)
      · rcases List.mem_cons.mp member with rfl | later
        · exact .inl rfl
        · exact .inr (List.mem_cons_of_mem _ later)
    · exact .inr member
  have inLast (others : List Block) (member : block ∈ trimLast others) :
      block.isText = true ∨ block ∈ others := by
    induction others using trimLast.induct with
    | case1 => exact .inr member
    | case2 text =>
        rw [trimLast, withText] at member
        split at member
        · cases member
        · rw [List.mem_singleton.mp member]
          exact .inl rfl
    | case3 single notText =>
        rw [trimLast] at member
        · exact .inr member
        · exact notText
    | case4 first second others inductionHypothesis =>
        rw [trimLast] at member
        rcases List.mem_cons.mp member with rfl | later
        · exact .inr List.mem_cons_self
        · exact (inductionHypothesis later).imp id (List.mem_cons_of_mem first)
  rcases inFirst member with isText | inside
  · exact .inl isText
  · exact inLast _ inside

/-! ## What single nodes are read as -/

/-- The level of a heading that is read fits in a byte. -/
theorem bounds_of_headingLevel (read : headingLevel children = .ok level) :
    1 ≤ level ∧ level ≤ 255 := by
  unfold headingLevel at read
  simp only at read
  split at read
  · cases read
  · rename_i proper
    cases read
    simp only [Bool.or_eq_true, not_or, List.isEmpty_iff, decide_eq_true_eq,
      not_lt] at proper
    exact ⟨List.length_pos_iff.mpr proper.1.1, proper.2⟩

/-- A hashtag that is read is as a source writes it. -/
theorem isWellFormed_hashtag
    (production : Production .hashtag children following)
    (read : hashtag (Element.node .hashtag children).text = .ok tag) :
    tag.IsWellFormed := by
  have named {letters : List Char} (nonempty : letters ≠ []) :
      String.ofList letters ≠ "" := by
    intro same
    rw [← String.toList_inj, String.toList_ofList] at same
    exact nonempty same
  have tagged := tagged_ofSource production
  rw [hashtag] at read
  generalize Hashtag.ofSource? _ = result at tagged read
  cases tagged with
  | named _ nonempty areLetters =>
      cases read
      refine ⟨named nonempty, ?_, List.forall_mem_nil _, List.forall_mem_nil _⟩
      rw [String.toList_ofList]
      exact areLetters
  | @listed letters inside _ nonempty areLetters noFeed noBrace =>
      cases read
      refine ⟨named nonempty, ?_, ?_, ?_⟩
      · rw [String.toList_ofList]
        exact areLetters
      · intro parameter member
        obtain ⟨part, _, rfl⟩ := List.mem_map.mp member
        have trimmed : String.ofList (Text.dropEnds Text.isBlank part) =
            Text.trim (String.ofList part) := by
          rw [Text.trim, String.toList_ofList]
        rw [trimmed]
        exact ⟨Text.startsVisibly_trim _, Text.endsVisibly_trim _⟩
      · intro parameter member character occurs
        obtain ⟨part, isPart, rfl⟩ := List.mem_map.mp member
        rw [String.toList_ofList] at occurs
        have inPart := Text.mem_of_mem_dropEnds occurs
        have inList : character ∈ inside := Text.mem_of_mem_splitAt isPart inPart
        refine ⟨?_, ?_, ?_⟩
        · rintro rfl
          exact Text.notMem_of_mem_splitAt isPart inPart
        · rintro rfl
          exact noBrace inList
        · rintro rfl
          exact noFeed inList
  | malformed => cases read

/-- A code block is read as a source writes it: a trimmed command, and lines without
line feeds and without blanks at their ends. -/
theorem isWellFormed_codeBlock (children : List Element) :
    (codeBlock children).IsWellFormed := by
  unfold codeBlock
  split
  · exact ⟨by simp [StartsVisibly, EndsVisibly], List.forall_mem_nil _⟩
  · rename_i command lines split
    refine ⟨⟨Text.startsVisibly_trim command, Text.endsVisibly_trim command⟩, ?_⟩
    intro line member
    obtain ⟨whole, isLine, rfl⟩ := List.mem_map.mp member
    have inLines : whole ∈ Text.lines
        (String.join ((betweenFences children).map Token.text)) := by
      rw [split]
      exact List.mem_cons_of_mem command isLine
    obtain ⟨characters, isSplit, rfl⟩ := List.mem_map.mp inLines
    refine ⟨?_, Text.endsVisibly_trimEnd _⟩
    rw [Text.toList_trimEnd, String.toList_ofList]
    intro feed
    exact Text.newline_notMem_of_mem_splitLines isSplit
      ((Text.dropTrailing_isPrefix characters).mem feed)

/-- The name in a mention is as a source writes it. -/
theorem isWellFormed_mention
    (production : Production .mention children following) :
    (Block.mention
      (mentionedName (Element.node .mention children).text)).IsWellFormed := by
  obtain ⟨token, rest, last, after, lexed, atom⟩ := production.exists_atom rfl
    (fun mark => by cases mark <;> decide)
  cases atom with
  | span isRaw =>
      generalize token.kind = mark at isRaw
      cases isRaw
  | mention isName =>
      obtain ⟨name, nonempty, named, written⟩ :=
        lexed.head.spelled_mentionName isName
      have text : (Element.node .mention [.ofToken token]).text.toList =
          '@' :: name := by
        rw [toList_text]
        simp [Element.leavesOf, Element.ofToken, Element.leaves, written]
      have isName : mentionedName (Element.node .mention [.ofToken token]).text =
          String.ofList name := by
        rw [mentionedName, text]
        rfl
      rw [isName]
      refine ⟨?_, ?_⟩
      · intro same
        rw [← String.toList_inj, String.toList_ofList] at same
        exact nonempty same
      · intro character member
        rw [String.toList_ofList] at member
        simpa [Lexer.isNameCharacter] using named character member

/-! ## Tables -/

/-- The first element of a table is a row. -/
theorem exists_row (production : Production .table children following) :
    ∃ cells others, children = .node .tableRow cells :: others := by
  cases production with
  | table row rows =>
      cases row with
      | row => exact ⟨_, _, rfl⟩
  | atom _ _ atom => cases atom.inline.1
  | closed _ isStyle => cases Inline.isInline_of_style isStyle
  | unclosed _ isStyle => cases Inline.isInline_of_style isStyle
  | marked _ isMarker => cases isMarker

/-! ## Blocks -/

/-- Blocks read from elements that keep all rules. Those that take up lines come
from nodes that do. -/
structure Accords (elements : List Element) (blocks : List Block) : Prop where
  merged : AreMerged blocks
  lines :
    ∀ block ∈ blocks, block.isLine = true →
      ∃ kind children, .node kind children ∈ elements ∧ kind.isBlock = true
  inside : ∀ block ∈ subblocksOf blocks, block.IsWellFormed

/-- A container of elements of a line has no lines inside. -/
theorem not_isBlock_of_holds
    {outer kind : Kind}
    (isContainer : outer ∈ .tableCell :: containers)
    (held : outer.holds kind = true) :
    kind.isBlock = false := by
  simp only [containers, List.mem_cons, List.not_mem_nil, or_false]
    at isContainer
  rcases isContainer with rfl | rfl | rfl | rfl | rfl | rfl | rfl | rfl
  all_goals cases kind <;> first | rfl | cases held

namespace Accords

/-- Below a container there are no blocks that take up lines. -/
theorem withinLines
    (accords : Accords elements blocks)
    (isContainer : outer ∈ .tableCell :: containers)
    (grown : Grown outer elements) :
    AreWithinLines blocks := by
  intro block member
  rw [← Bool.not_eq_true]
  intro isLine
  obtain ⟨kind, children, occurs, isBlock⟩ := accords.lines block member isLine
  rw [not_isBlock_of_holds isContainer (grown.held kind children occurs)]
    at isBlock
  cases isBlock

/-- Trimming keeps the rules of the blocks. -/
theorem inside_trimBlocks
    (accords : Accords elements blocks)
    (member : block ∈ subblocksOf (trimBlocks blocks)) :
    block.IsWellFormed := by
  obtain ⟨outer, isOuter, inner⟩ := mem_subblocksOf.mp member
  rcases mem_trimBlocks isOuter with isText | kept
  · cases outer with
    | text own =>
        rw [subblocks_text, List.mem_singleton] at inner
        rw [inner]
        trivial
    | _ => cases isText
  · exact accords.inside block (mem_subblocksOf.mpr ⟨outer, kept, inner⟩)

/-- In a container, trimming leaves blocks that stand within lines. -/
theorem withinLines_trimBlocks
    (accords : Accords elements blocks)
    (isContainer : outer ∈ .tableCell :: containers)
    (grown : Grown outer elements) :
    AreWithinLines (trimBlocks blocks) := by
  intro block member
  rcases mem_trimBlocks member with isText | kept
  · cases block with
    | text own => rfl
    | _ => cases isText
  · exact accords.withinLines isContainer grown block kept

/-- A text put in front of blocks that do not start with one. -/
theorem withText
    (accords : Accords elements blocks)
    (apart : ∀ first, blocks.head? = some first → first.isText = false)
    (text : String) :
    Accords elements (Reading.withText text blocks) := by
  refine ⟨accords.merged.withText apart text, ?_, ?_⟩
  · intro block member isLine
    unfold Reading.withText at member
    split at member
    · exact accords.lines block member isLine
    · rcases List.mem_cons.mp member with rfl | later
      · cases isLine
      · exact accords.lines block later isLine
  · intro block member
    unfold Reading.withText at member
    split at member
    · exact accords.inside block member
    · rw [subblocksOf_cons, subblocks_text] at member
      rcases List.mem_cons.mp member with rfl | later
      · trivial
      · exact accords.inside block later

theorem nil (elements : List Element) : Accords elements [] :=
  ⟨.nil, List.forall_mem_nil _, List.forall_mem_nil _⟩

/-- A leaf adds no block. -/
theorem cons_leaf
    (accords : Accords others blocks)
    (kind : Kind)
    (text : String) :
    Accords (.leaf kind text :: others) blocks := by
  refine ⟨accords.merged, ?_, accords.inside⟩
  intro block member isLine
  obtain ⟨kind, children, occurs, isBlock⟩ := accords.lines block member isLine
  exact ⟨kind, children, List.mem_cons_of_mem _ occurs, isBlock⟩

/-- A node adds one block that keeps the rules. -/
theorem cons_node
    (accords : Accords others blocks)
    (notText : block.isText = false)
    (ofLine : block.isLine = true → kind.isBlock = true)
    (inside : ∀ inner ∈ subblocks block, inner.IsWellFormed) :
    Accords (.node kind children :: others) (block :: blocks) := by
  refine ⟨accords.merged.other notText, ?_, ?_⟩
  · intro other member isLine
    rcases List.mem_cons.mp member with rfl | later
    · exact ⟨kind, children, List.mem_cons_self, ofLine isLine⟩
    · obtain ⟨kind, children, occurs, isBlock⟩ :=
        accords.lines other later isLine
      exact ⟨kind, children, List.mem_cons_of_mem _ occurs, isBlock⟩
  · intro inner member
    rw [subblocksOf_cons] at member
    rcases List.mem_append.mp member with here | later
    · exact inside inner here
    · exact accords.inside inner later

end Accords

/-- The rows of a table that keep all rules. -/
structure AccordRows (rows : List (List (List Block))) : Prop where
  cells : ∀ row ∈ rows, ∀ cell ∈ row, AreTrimmed cell ∧ AreWithinLines cell
  inside : ∀ block ∈ subblocksOfRows rows, block.IsWellFormed

/-- The cells of a row that keep all rules. -/
structure AccordCells (row : List (List Block)) : Prop where
  cells : ∀ cell ∈ row, AreTrimmed cell ∧ AreWithinLines cell
  inside : ∀ block ∈ subblocksOfGroups row, block.IsWellFormed

/-- The blocks inside a block keep the rules when it does and those below it do. -/
theorem forall_subblocks
    {inner : List Block}
    (whole : subblocks block = block :: inner)
    (own : block.IsWellFormed)
    (inside : ∀ other ∈ inner, other.IsWellFormed) :
    ∀ other ∈ subblocks block, other.IsWellFormed := by
  rw [whole, List.forall_mem_cons]
  exact ⟨own, inside⟩

/-- The block of a node keeps all rules, when the blocks and rows of its children
do. -/
theorem accords_blockOf
    (production : Production kind children following)
    (held : Kind.paragraph.holds kind = true)
    (grown : Grown kind children)
    (inside : ∀ blocks, Grown .paragraph children →
      blocksOf "" children = .ok blocks → Accords children blocks)
    (insideRows : ∀ rows, Grown .table children →
      rowsOf children = .ok rows → AccordRows rows)
    (read : blockOf kind children = .ok block) :
    (block.isLine = true → kind.isBlock = true) ∧
      ∀ inner ∈ subblocks block, inner.IsWellFormed := by
  cases kind with
  | heading =>
      obtain ⟨level, blocks, readLevel, readBlocks, rfl⟩ := ok_of_heading read
      have accords := inside blocks (grown.of_container (by decide)) readBlocks
      refine ⟨fun _ => rfl, forall_subblocks (by rw [subblocks])
        ⟨bounds_of_headingLevel readLevel,
          areTrimmed_trimBlocks accords.merged,
          accords.withinLines_trimBlocks (by decide) grown⟩ ?_⟩
      exact fun _ => accords.inside_trimBlocks
  | orderedItem =>
      obtain ⟨number, blocks, readBlocks, rfl⟩ := ok_of_orderedItem read
      have accords := inside blocks (grown.of_container (by decide)) readBlocks
      refine ⟨fun _ => rfl, forall_subblocks (by rw [subblocks])
        ⟨areTrimmed_trimBlocks accords.merged,
          accords.withinLines_trimBlocks (by decide) grown⟩ ?_⟩
      exact fun _ => accords.inside_trimBlocks
  | unorderedItem =>
      rw [blockOf] at read
      obtain ⟨blocks, readBlocks, rfl⟩ := ok_of_map read
      have accords := inside blocks (grown.of_container (by decide)) readBlocks
      refine ⟨fun _ => rfl, forall_subblocks (by rw [subblocks])
        ⟨areTrimmed_trimBlocks accords.merged,
          accords.withinLines_trimBlocks (by decide) grown⟩ ?_⟩
      exact fun _ => accords.inside_trimBlocks
  | bold | italics | underline | strikeout =>
      rw [blockOf] at read
      obtain ⟨blocks, readBlocks, rfl⟩ := ok_of_map read
      have accords := inside blocks (grown.of_container (by decide)) readBlocks
      refine ⟨?_, forall_subblocks (by rw [subblocks]) ⟨accords.merged,
        accords.withinLines (by decide) grown⟩ accords.inside⟩
      intro isLine
      cases isLine
  | table =>
      rw [blockOf] at read
      obtain ⟨rows, readRows, rfl⟩ := ok_of_map read
      have accords := insideRows rows grown readRows
      -- A table starts with a row, so it has one.
      obtain ⟨cells, others, rfl⟩ := exists_row production
      obtain ⟨row, later, _, _, rfl⟩ := ok_of_rowsOf readRows
      exact ⟨fun _ => rfl, forall_subblocks (by rw [subblocks])
        ⟨List.cons_ne_nil row later, accords.cells⟩ accords.inside⟩
  | hashtag =>
      rw [blockOf] at read
      obtain ⟨tag, readTag, rfl⟩ := ok_of_map read
      refine ⟨?_, forall_subblocks rfl
        (isWellFormed_hashtag production readTag) (List.forall_mem_nil _)⟩
      intro isLine
      cases isLine
  | mention =>
      rw [blockOf] at read
      cases read
      refine ⟨?_, forall_subblocks rfl (isWellFormed_mention production)
        (List.forall_mem_nil _)⟩
      intro isLine
      cases isLine
  | codeBlock =>
      rw [blockOf] at read
      cases read
      exact ⟨fun _ => rfl,
        forall_subblocks rfl (isWellFormed_codeBlock children)
          (List.forall_mem_nil _)⟩
  | literal | checkbox | textbox | quotation =>
      rw [blockOf] at read
      cases read
      refine ⟨?_, forall_subblocks rfl trivial (List.forall_mem_nil _)⟩
      intro isLine
      cases isLine
  | _ => cases held

mutual

/-- Blocks that are read keep all rules. -/
theorem accords_blocksOf :
    ∀ elements text blocks, Grown .paragraph elements →
      blocksOf text elements = .ok blocks → Accords elements blocks
  | [], text, blocks, _, read => by
      rw [blocksOf] at read
      cases read
      apply (Accords.nil []).withText
      intro first isFirst
      cases isFirst
  | .leaf kind more :: others, text, blocks, grown, read => by
      rw [blocksOf] at read
      exact (accords_blocksOf others _ blocks grown.tail read).cons_leaf kind more
  | .node kind children :: others, text, blocks, grown, read => by
      obtain ⟨block, later, readBlock, readOthers, rfl⟩ := ok_of_blocksOf read
      have held := grown.held kind children List.mem_cons_self
      obtain ⟨following, production⟩ := grown.production List.mem_cons_self
      obtain ⟨ofLine, inside⟩ := accords_blockOf production held
        (grown.child List.mem_cons_self)
        (fun blocks => accords_blocksOf children "" blocks)
        (fun rows => accords_rowsOf children rows) readBlock
      have notText : block.isText = false := by
        cases block with
        | text own => exact (blockOf_ne_text held own readBlock).elim
        | _ => rfl
      have accords := accords_blocksOf others "" later grown.tail readOthers
      apply (accords.cons_node notText ofLine inside).withText
      rintro first ⟨⟩
      exact notText

/-- Rows that are read keep all rules. -/
theorem accords_rowsOf :
    ∀ elements rows, Grown .table elements →
      rowsOf elements = .ok rows → AccordRows rows
  | [], rows, _, read => by
      rw [rowsOf] at read
      cases read
      exact ⟨List.forall_mem_nil _, List.forall_mem_nil _⟩
  | .leaf kind text :: others, rows, grown, read => by
      rw [rowsOf] at read
      exact accords_rowsOf others rows grown.tail read
  | .node kind children :: others, rows, grown, read => by
      have isRow : kind = .tableRow :=
        eq_of_beq (grown.held kind children List.mem_cons_self)
      subst isRow
      obtain ⟨row, later, readCells, readOthers, rfl⟩ := ok_of_rowsOf read
      have here := accords_cellsOf children row
        (grown.child List.mem_cons_self) readCells
      have after := accords_rowsOf others later grown.tail readOthers
      refine ⟨List.forall_mem_cons.mpr ⟨here.cells, after.cells⟩, ?_⟩
      rw [subblocksOfRows]
      exact List.forall_mem_append.mpr ⟨here.inside, after.inside⟩

/-- Cells that are read keep all rules. -/
theorem accords_cellsOf :
    ∀ elements cells, Grown .tableRow elements →
      cellsOf elements = .ok cells → AccordCells cells
  | [], cells, _, read => by
      rw [cellsOf] at read
      cases read
      exact ⟨List.forall_mem_nil _, List.forall_mem_nil _⟩
  | .leaf kind text :: others, cells, grown, read => by
      rw [cellsOf] at read
      exact accords_cellsOf others cells grown.tail read
  | .node kind children :: others, cells, grown, read => by
      have isCell : kind = .tableCell :=
        eq_of_beq (grown.held kind children List.mem_cons_self)
      subst isCell
      obtain ⟨blocks, later, readBlocks, readOthers, rfl⟩ := ok_of_cellsOf read
      have inCell := grown.child List.mem_cons_self
      have here := accords_blocksOf children "" blocks
        (inCell.of_container (by decide)) readBlocks
      have after := accords_cellsOf others later grown.tail readOthers
      refine ⟨List.forall_mem_cons.mpr ⟨⟨areTrimmed_trimBlocks here.merged,
        here.withinLines_trimBlocks (by decide) inCell⟩, after.cells⟩, ?_⟩
      rw [subblocksOfGroups]
      exact List.forall_mem_append.mpr
        ⟨fun _ => here.inside_trimBlocks, after.inside⟩

end

/-- A document that is read from grown elements is well-formed. -/
theorem isWellFormed_paragraphsOf
    (grown : Grown .root elements)
    (read : paragraphsOf elements = .ok document) :
    IsWellFormed document := by
  induction elements generalizing document with
  | nil =>
      cases read
      exact ⟨List.forall_mem_nil _, List.forall_mem_nil _⟩
  | cons first others inductionHypothesis =>
      have later := fun {document} => @inductionHypothesis document grown.tail
      cases first with
      | leaf kind text => exact later read
      | node kind children =>
          have isParagraph : kind = .paragraph :=
            eq_of_beq (grown.held kind children List.mem_cons_self)
          subst isParagraph
          obtain ⟨blocks, paragraphs, readBlocks, readOthers, rfl⟩ :=
            ok_of_paragraphsOf read
          have here := accords_blocksOf children "" blocks
            (grown.child List.mem_cons_self) readBlocks
          have after := later readOthers
          refine ⟨List.forall_mem_cons.mpr
            ⟨areTrimmed_trimBlocks here.merged, after.paragraphs⟩, ?_⟩
          rw [subblocksOfGroups]
          exact List.forall_mem_append.mpr
            ⟨fun _ => here.inside_trimBlocks, after.blocks⟩

end Reading

/-- Every document that a source holds is well-formed. -/
theorem ofSource_isWellFormed
    (source : String)
    (document : Document)
    (read : ofSource source = .ok document) :
    IsWellFormed document :=
  Reading.isWellFormed_paragraphsOf (Reading.grown_parse source) read

/-- A heading, a table and a code block. -/
theorem ofSource_isWellFormed_table :
    ∃ document,
      ofSource "# a *b* \n| #c\x7bd | e\x7d | @f |\n```g \nh \n```\n" =
        .ok document ∧
      IsWellFormed document := by
  have isDocument :
      (ofSource "# a *b* \n| #c\x7bd | e\x7d | @f |\n```g \nh \n```\n").isOk =
        true := by
    decide +kernel
  cases read :
      ofSource "# a *b* \n| #c\x7bd | e\x7d | @f |\n```g \nh \n```\n" with
  | error malformation =>
      rw [read] at isDocument
      cases isDocument
  | ok document =>
      exact ⟨document, rfl, ofSource_isWellFormed _ document read⟩

end Document
end NotePress
