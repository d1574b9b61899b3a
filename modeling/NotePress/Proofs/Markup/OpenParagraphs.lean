import NotePress.Proofs.Markup.FinalEnding

/-!
# Lines under whole lines

Below lines with their endings, all code blocks in them closed, a line that goes on
no table is read as it is anywhere else. It goes on the paragraph above it when that
is still open at the end, and starts a paragraph otherwise.
-/

namespace NotePress
namespace Markup

open Parsed (Extended)

namespace Line

theorem Marker.visible
    (marker : Marker (token :: tokens) kind leaf rest) :
    token.kind ≠ .newline := by
  intro newline
  generalize same : token :: tokens = all at marker
  cases marker with
  | @heading hashes rest nonempty short isHash =>
      obtain ⟨hash, others, rfl⟩ := List.exists_cons_of_ne_nil nonempty
      obtain ⟨rfl, rfl⟩ := List.cons.inj same
      have isFirst := isHash token List.mem_cons_self
      simp [newline] at isFirst
  | unorderedItem isMark =>
      cases same
      simp [newline] at isMark
  | orderedItem isText =>
      cases same
      simp [newline] at isText

/-- A line does not start with its ending. -/
theorem Block.visible
    (block : Block (token :: tokens) elements rest) :
    token.kind ≠ .newline := by
  intro newline
  generalize same : token :: tokens = all at block
  cases block with
  | marked marker =>
      subst same
      exact marker.visible newline
  | table row =>
      subst same
      obtain ⟨isPipe, _⟩ := row.leaves
      simp [newline] at isPipe
  | codeBlock isFence =>
      obtain ⟨first, second, third, rfl⟩ := isFence.exists_ticks
      obtain ⟨rfl, rfl⟩ := List.cons.inj same
      have isTick := isFence.kind token List.mem_cons_self
      simp [newline] at isTick
  | text starts =>
      subst same
      simp [startsText, newline] at starts

theorem Block.sourceLines
    (block : Block tokens elements rest)
    (source : SourceLines tokens) :
    SourceLines rest := by
  obtain ⟨token, others, rfl⟩ := block.exists_cons
  have left := sourceLines_rest source (reads_line token others)
    (Parsed.bounded _)
  rwa [block.leaves.rest] at left

/-- A line with its ending is the same above other lines. -/
theorem Block.extended
    (block : Block tokens elements rest)
    (source : SourceLines tokens)
    (closed : Fenced elements)
    (noBar : startsWith .pipe more = false) :
    Block (tokens ++ more) elements (rest ++ more) := by
  obtain ⟨token, others, rfl⟩ := block.exists_cons
  obtain ⟨value, remaining⟩ := block.leaves
  rw [← value] at closed
  have longer := line_append token source closed noBar
  have read : Block (token :: (others ++ more)) _ _ := block_line block.visible
  rwa [longer.value, longer.rest, value, remaining] at read

theorem atVisible_append
    (more : List Token)
    (source : SourceLines tokens)
    (nonempty : tokens ≠ []) :
    atVisible (tokens ++ more) = atVisible tokens := by
  obtain ⟨first, others, rfl⟩ := List.exists_cons_of_ne_nil nonempty
  have same := Parse.atBlankLine_append more source
  rw [atVisible, atVisible, same]
  rfl

end Line

namespace Parse

theorem Lines.sourceLines
    (lines : Lines tokens elements rest)
    (source : SourceLines tokens) :
    SourceLines rest := by
  induction lines with
  | last block => exact block.sourceLines source
  | next block _ _ inductionHypothesis =>
      exact inductionHypothesis (block.sourceLines source)

section

variable
  {more : List Token}
  (noBar : Line.startsWith .pipe more = false)

include noBar

/-- A paragraph that ends before the end of its source is the same above other
lines. -/
theorem Lines.extended
    (lines : Lines tokens elements rest)
    (source : SourceLines tokens)
    (closed : Fenced elements)
    (ended : rest ≠ []) :
    Lines (tokens ++ more) elements (rest ++ more) := by
  induction lines with
  | last block stops =>
      have left := block.sourceLines source
      apply Lines.last (block.extended source closed noBar)
      rwa [Line.atVisible_append more left ended]
  | next block goesOn later inductionHypothesis =>
      have left := block.sourceLines source
      refine .next (block.extended source closed.of_append_left noBar) ?_
        (inductionHypothesis left closed.of_append_right ended)
      rwa [Line.atVisible_append more left (Line.ne_nil_of_atVisible goesOn)]

/-- A paragraph that is still open at the end of its source is gone on by the lines
below. -/
theorem Lines.goOn
    (lines : Lines tokens elements [])
    (source : SourceLines tokens)
    (closed : Fenced elements)
    (visible : Line.atVisible more = true)
    (below : Lines more others left) :
    Lines (tokens ++ more) (elements ++ others) left := by
  generalize nothing : ([] : List Token) = rest at lines
  induction lines with
  | last block =>
      subst nothing
      exact .next (block.extended source closed noBar) visible below
  | next block goesOn later inductionHypothesis =>
      have left := block.sourceLines source
      rw [List.append_assoc]
      refine .next (block.extended source closed.of_append_left noBar) ?_
        (inductionHypothesis left closed.of_append_right nothing)
      rwa [Line.atVisible_append more left (Line.ne_nil_of_atVisible goesOn)]

end

/-- Sections cut where lines below them are put: in the last of them when it is a
paragraph, and behind all of them otherwise. -/
inductive CutOpen : List Element → List Element → List Element → Prop
  | within : CutOpen (front ++ [.node .paragraph begun]) front begun
  | behind :
      (∀ begun, elements.getLast? ≠ some (.node .paragraph begun)) →
      CutOpen elements elements []

theorem CutOpen.cons
    (cut : CutOpen elements front begun)
    {first : Element}
    (apart : elements = [] → ∀ children, first ≠ .node .paragraph children) :
    CutOpen (first :: elements) (first :: front) begun := by
  cases cut with
  | within =>
      rw [← List.cons_append]
      exact .within
  | behind closed =>
      apply CutOpen.behind
      intro begun isLast
      rw [List.getLast?_cons] at isLast
      cases elements with
      | nil => exact apart rfl begun (Option.some.inj isLast)
      | cons second others =>
          rw [List.getLast?_eq_some_getLast (List.cons_ne_nil _ _)] at isLast closed
          exact closed begun isLast

/-- Lines below whole lines are added to the paragraph that is open there. -/
theorem Layout.goOn
    (layout : Layout tokens elements)
    (source : SourceLines tokens)
    (closed : Fenced elements) :
    ∃ front begun, CutOpen elements front begun ∧
      ∀ {more children left others}, Line.atVisible more = true →
        Line.startsWith .pipe more = false →
        Lines more children left → Layout left others →
        Layout (tokens ++ more)
          (front ++ .node .paragraph (begun ++ children) :: others) := by
  induction layout with
  | nil => exact ⟨[], [], .behind (by simp), fun visible _ => .paragraph visible⟩
  | @blank token rest others blank layout inductionHypothesis =>
      obtain ⟨front, begun, cut, goesOn⟩ :=
        inductionHypothesis source.of_cons closed.of_cons
      refine ⟨_, begun, cut.cons fun _ _ => Element.noConfusion, ?_⟩
      intro more children left after visible noBar lines layout
      refine .blank ?_ (goesOn visible noBar lines layout)
      exact (atBlankLine_append more source).trans blank
  | @paragraph tokens children rest others visible lines layout
      inductionHypothesis =>
      have nonempty := Line.ne_nil_of_atVisible visible
      have inside := closed.head.of_node
      by_cases isOpen : rest = []
      · subst isOpen
        cases layout with
        | paragraph nothing => cases nothing
        | nil =>
            have cut : CutOpen ([] ++ [.node .paragraph children]) [] children :=
              .within
            refine ⟨[], children, cut, ?_⟩
            intro more below left after moreVisible noBar moreLines layout
            refine .paragraph ?_
              (lines.goOn noBar source inside moreVisible moreLines) layout
            rwa [Line.atVisible_append more source nonempty]
      · obtain ⟨front, begun, cut, goesOn⟩ :=
          inductionHypothesis (lines.sourceLines source) closed.of_cons
        refine ⟨_, begun, cut.cons fun nothing => absurd nothing ?_, ?_⟩
        · exact layout.ne_nil isOpen
        intro more below left after moreVisible noBar moreLines layout
        refine .paragraph ?_ (lines.extended noBar source inside isOpen)
          (goesOn moreVisible noBar moreLines layout)
        rwa [Line.atVisible_append more source nonempty]

end Parse

end Markup
end NotePress
