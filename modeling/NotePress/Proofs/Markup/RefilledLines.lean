import NotePress.Proofs.Markup.Refilling

/-!
# Refilling verbatim content in a source

The rules for lines, tables, code blocks and paragraphs make the same elements of
refilled tokens, as long as the delimiters before the refilled node have right
answers in the new tree (`Layout.refill`).
-/

namespace NotePress
namespace Markup

open Inline (Derives)
open Refilling (Elements Tokens Parts)

variable {refilling : Refilling}

namespace Line

/-! ## Line endings and cells -/

/-- What the delimiters of a line see after its elements. -/
theorem Ending.restOfLine_eq
    (taken : Ending left ending rest)
    (lexed : AllLexed left)
    (ended : rest = [] → following = []) :
    restOfLine ((Element.signsOf false ending).map Sign.kind ++ following) =
      restOfLine (left.map Token.kind) := by
  cases taken with
  | @taken token _ newline =>
      rw [Element.signsOf, Element.signs_ofToken lexed.head]
      simp only [List.map_cons, List.cons_append, newline, restOfLine_newline]
  | missing =>
      rw [ended rfl]
      rfl

/-- The elements of a line and its ending. -/
theorem Ending.refill
    (taken : Ending left ending rest)
    (changed : refilling.Parts (content ++ ending) rest refilled remaining)
    (lexed : AllLexed left)
    (ended : remaining = [] → following = [])
    (answered : Answered previous following (Element.signsOf false refilled)) :
    ∃ front middle, refilled = front ++ ending ∧
      refilling.Parts content left front middle ∧
      Ending middle ending remaining ∧
      Answered previous (middle.map Token.kind)
        (Element.signsOf false front) := by
  have parts : ∃ front middle, refilled = front ++ ending ∧
      refilling.Parts content left front middle ∧
      Ending middle ending remaining := by
    rcases changed.of_append with
      ⟨front, rfl, rfl, inContent⟩ | ⟨back, rfl, inEnding⟩
    · exact ⟨front, left, rfl, .inside inContent, taken⟩
    · cases taken with
      | taken newline =>
          obtain ⟨later, rfl, inLater⟩ := inEnding.of_leaf
          obtain ⟨rfl, inRest⟩ := inLater.of_nil
          exact ⟨content, _, rfl, .after inRest.later, .taken newline⟩
      | missing => exact absurd rfl inEnding.of_nil.2.ne_nil.1
  obtain ⟨front, middle, rfl, inContent, isEnding⟩ := parts
  rw [Element.signsOf_append false _ (.inl rfl), Answered.append_iff] at answered
  have sameLine := isEnding.restOfLine_eq (inContent.allLexed lexed) ended
  exact ⟨front, middle, rfl, inContent, isEnding,
    (Answered.congr_following sameLine).mp answered.1⟩

/-- The cells of a row are read from the refilled tokens. -/
theorem Cells.refill
    (cells : Cells tokens parts rest)
    (changed : refilling.Parts parts rest refilled left)
    (lexed : AllLexed tokens)
    (same : restOfLine following = restOfLine (left.map Token.kind))
    (answered : Answered .pipe following (Element.signsOf false refilled)) :
    ∃ others, refilling.Tokens tokens others ∧ Cells others refilled left := by
  induction cells generalizing refilled left with
  | done ended =>
      obtain ⟨rfl, inRest⟩ := changed.of_nil
      exact ⟨left, inRest, .done (by rw [inRest.atLineEnd, ended])⟩
  | blank space ended =>
      obtain ⟨later, rfl, inLater⟩ := changed.of_leaf
      obtain ⟨rfl, inRest⟩ := inLater.of_nil
      exact ⟨_, inRest.later, .blank space (by rw [inRest.atLineEnd, ended])⟩
  | @cell tokens content last bar middle others rest visible inside isPipe cells
      inductionHypothesis =>
      have barLexed := lexed.of_suffix inside.reads.suffix
      have barSign : Element.signs false (.ofDelimiter bar) =
          [⟨bar.kind, none⟩] := by
        rw [Element.signs_ofDelimiter barLexed.head (by rw [isPipe]; rfl)]
        rfl
      rcases changed.of_node (by decide) with
        ⟨inner, rfl, rfl, inCell⟩ | ⟨later, rfl, inLater⟩
      · rw [Element.signsOf, Element.signs_node rfl rfl, Element.signsOf,
          barSign] at answered
        obtain ⟨_, traced⟩ := cells.traced barLexed.of_cons
        rw [← isPipe] at traced
        obtain ⟨others, changedTokens, here⟩ := inside.refill (.inside inCell)
          lexed (traced.restOfLine_closing same)
          (Answered.append_iff.mp answered).1
        exact ⟨others, changedTokens,
          .cell (by rw [changedTokens.atVisible, visible]) here isPipe cells⟩
      · obtain ⟨later, rfl, inOthers⟩ := inLater.of_leaf
        rw [← Element.ofDelimiter, Element.signsOf,
          Element.signs_node rfl rfl, Element.signsOf, barSign] at answered
        obtain ⟨insideAnswered, closes⟩ := Answered.append_iff.mp answered
        obtain ⟨middle, changedMiddle, after⟩ :=
          inductionHypothesis inOthers barLexed.of_cons same (by
            rw [← isPipe]
            exact closes.2)
        obtain ⟨_, traced⟩ :=
          after.traced (changedMiddle.allLexed barLexed.of_cons)
        rw [← isPipe] at traced
        obtain ⟨others, changedTokens, here⟩ := inside.refill
          (.after changedMiddle.later) lexed (traced.restOfLine_closing same)
          insideAnswered
        exact ⟨others, changedTokens,
          .cell (by rw [changedTokens.atVisible, visible]) here isPipe after⟩
  | lastCell visible inside ended =>
      obtain ⟨inner, rfl, inCell⟩ := changed.of_only (by decide)
      rw [Element.signsOf, Element.signs_node rfl rfl, Element.signsOf,
        List.append_nil] at answered
      obtain ⟨others, changedTokens, here⟩ :=
        inside.refill inCell lexed same answered
      exact ⟨others, changedTokens,
        .lastCell (by rw [changedTokens.atVisible, visible]) here
          (by rw [inCell.atLineEnd, ended])⟩

/-! ## One after the other -/

/-- What one relation makes of some tokens, and another of what comes next. -/
theorem refill_append
    {First Second : List Token → List Element → List Token → Prop}
    (changed : refilling.Parts (first ++ second) rest refilled left)
    (ended : left = [] → following = [])
    (answered : Answered previous following (Element.signsOf false refilled))
    (ends : middle = [] ∨ Element.endWithEnding first = true)
    (isSecond : Second middle second rest)
    (nothing : middle = [] → second = [] ∧ rest = [])
    (refillFirst : ∀ {front between next},
      refilling.Parts first middle front between →
      (between = [] → next = []) →
      Answered previous next (Element.signsOf false front) →
      ∃ others, refilling.Tokens tokens others ∧ First others front between)
    (refillSecond : ∀ {back},
      refilling.Parts second rest back left →
      Answered .newline following (Element.signsOf false back) →
      ∃ between, refilling.Tokens middle between ∧ Second between back left) :
    ∃ front back others between, refilled = front ++ back ∧
      refilling.Tokens tokens others ∧ First others front between ∧
      Second between back left ∧ atVisible between = atVisible middle := by
  rcases changed.of_append with
    ⟨front, rfl, rfl, inFirst⟩ | ⟨back, rfl, inSecond⟩
  · rw [Element.signsOf_append false _ (.inl rfl), Answered.append_iff]
      at answered
    obtain ⟨others, inTokens, here⟩ := refillFirst (.inside inFirst)
      (by
        intro empty
        obtain ⟨rfl, rfl⟩ := nothing empty
        exact ended rfl) answered.1
    exact ⟨front, second, others, middle, rfl, inTokens, here, isSecond, rfl⟩
  · rw [Element.signsOf_append false _ (.inl rfl), Answered.append_iff]
      at answered
    have visible : middle ≠ [] := by
      intro empty
      obtain ⟨rfl, rfl⟩ := nothing empty
      exact inSecond.of_nil.2.ne_nil.1 rfl
    rw [Element.lastKind_of_ends (ends.resolve_left visible)] at answered
    obtain ⟨between, inMiddle, after⟩ := refillSecond inSecond answered.2
    obtain ⟨others, inTokens, here⟩ := refillFirst (.after inMiddle)
      (fun empty => absurd empty inMiddle.ne_nil.2) answered.1
    exact ⟨first, back, others, between, rfl, inTokens, here, after,
      inMiddle.atVisible⟩

/-! ## Tables -/

/-- A table row as the only element of a line. -/
def IsRow
    (tokens : List Token)
    (elements : List Element)
    (rest : List Token) : Prop :=
  ∃ row, elements = [row] ∧ Row tokens row rest

/-- A row is read from the refilled tokens. -/
theorem Row.refill
    {element : Element}
    (row : Row tokens element rest)
    (changed : refilling.Parts [element] rest refilled left)
    (lexed : AllLexed tokens)
    (ended : left = [] → following = [])
    (answered : Answered previous following (Element.signsOf false refilled)) :
    ∃ others, refilling.Tokens tokens others ∧ IsRow others refilled left := by
  cases row with
  | @row tokens parts middle ending _ bar isPipe cells taken =>
      obtain ⟨inner, rfl, inRow⟩ := changed.of_only (by decide)
      obtain ⟨later, rfl, inLater⟩ := inRow.of_leaf
      rw [Element.signsOf, Element.signsOf, List.append_nil,
        Element.signs_node rfl rfl, ← Element.ofDelimiter, Element.signsOf,
        Element.signs_ofDelimiter lexed.head (by rw [isPipe]; rfl)] at answered
      obtain ⟨front, remaining, rfl, inParts, isEnding, partsAnswered⟩ :=
        taken.refill inLater (lexed.of_cons.of_suffix cells.suffix) ended
          answered.2
      rw [isPipe] at partsAnswered
      obtain ⟨others, inTokens, cells⟩ :=
        cells.refill inParts lexed.of_cons rfl partsAnswered
      exact ⟨_, inTokens.later, _, rfl, .row isPipe cells isEnding⟩

/-- The rows of a table are read from the refilled tokens. -/
theorem Rows.refill
    (rows : Rows tokens elements rest)
    (changed : refilling.Parts elements rest refilled left)
    (lexed : AllLexed tokens)
    (ended : left = [] → following = [])
    (answered : Answered .newline following (Element.signsOf false refilled)) :
    ∃ others, refilling.Tokens tokens others ∧ Rows others refilled left := by
  induction rows generalizing refilled left with
  | done other =>
      obtain ⟨rfl, inRest⟩ := changed.of_nil
      exact ⟨left, inRest, .done (by rw [inRest.startsWith, other])⟩
  | @next tokens row middle rows rest isRow isRows inductionHypothesis =>
      have middleLexed := lexed.of_suffix isRow.suffix
      obtain ⟨_, _, others, _, rfl, inTokens, ⟨_, rfl, here⟩, after, _⟩ :=
        refill_append changed ended answered isRow.ends isRows
          (by
            rintro rfl
            exact isRows.eq_nil)
          (fun inRow => isRow.refill inRow lexed)
          (fun inRows => inductionHypothesis inRows middleLexed ended)
      exact ⟨others, inTokens, .next here after⟩

/-! ## Code blocks -/

/-- The rest of a line does not depend on what comes after the line. -/
theorem takeLine_refill
    (taken : takeLine tokens = (inside, rest))
    (changed : refilling.Tokens rest left) :
    takeLine (inside ++ left) = (inside, left) := by
  induction tokens generalizing inside with
  | nil =>
      cases taken
      exact absurd rfl changed.ne_nil.1
  | cons first others inductionHypothesis =>
      rw [takeLine] at taken
      split at taken
      · rename_i newline
        cases taken
        rw [List.singleton_append, takeLine, if_pos newline]
      · rename_i visible
        obtain ⟨rfl, rfl⟩ := Prod.mk.inj taken
        rw [List.cons_append, takeLine, if_neg visible,
          inductionHypothesis rfl]

theorem eq_append_of_takeLine
    (taken : takeLine tokens = (inside, rest)) :
    tokens = inside ++ rest := by
  have whole := takeLine_append tokens
  rw [taken] at whole
  exact whole.symm

/-- The lines of a code block are read from the refilled tokens. -/
theorem CodeLines.refill
    (lines : CodeLines tokens elements rest)
    (changed : refilling.Tokens rest left) :
    ∃ others, refilling.Tokens tokens others ∧
      CodeLines others elements left := by
  induction lines with
  | missing => exact absurd rfl changed.ne_nil.1
  | @fence ticks _ ending _ isFence taken =>
      rw [eq_append_of_takeLine taken]
      exact ⟨_, (changed.append ending).append ticks,
        .fence isFence (takeLine_refill taken changed)⟩
  | @line first tokens code _ _ _ unfenced taken _ inductionHypothesis =>
      obtain ⟨middle, inMiddle, after⟩ := inductionHypothesis changed
      have inTokens := inMiddle.append code
      rw [← eq_append_of_takeLine taken] at inTokens
      have taken := takeLine_refill taken inMiddle
      generalize code ++ middle = whole at inTokens taken
      have unfenced := inTokens.atFence unfenced
      obtain ⟨_, _, _, _, rfl⟩ := inTokens.exists_cons
      exact ⟨_, inTokens, .line unfenced taken after⟩

/-! ## Lines -/

theorem Marker.refill
    {kind : Kind}
    (marker : Marker tokens kind element rest)
    (changed : refilling.Tokens rest left) :
    ∃ others, refilling.Tokens tokens others ∧
      Marker others kind element left := by
  cases marker with
  | heading nonempty short isHash =>
      exact ⟨_, changed.append _, .heading nonempty short isHash⟩
  | unorderedItem isMark => exact ⟨_, changed.later, .unorderedItem isMark⟩
  | orderedItem isText isNumber =>
      exact ⟨_, changed.later, .orderedItem isText isNumber⟩

theorem Marker.notMem
    {kind : Kind}
    (marker : Marker tokens kind element rest) :
    kind ∉ [Kind.literal, .quotation, .parameters] := by
  cases marker <;> decide

/-- The lines that belong together are read from the refilled tokens. -/
theorem Block.refill
    (block : Block tokens elements rest)
    (changed : refilling.Parts elements rest refilled left)
    (lexed : AllLexed tokens)
    (ended : left = [] → following = [])
    (answered : Answered .newline following (Element.signsOf false refilled)) :
    ∃ others, refilling.Tokens tokens others ∧ Block others refilled left := by
  cases block with
  | @marked _ kind marker blank middle content last remaining ending _ isMarker
      isBlank inside taken =>
      have middleLexed := lexed.of_suffix isMarker.suffix
      obtain ⟨_, unmarked, unstyled⟩ := isMarker.quiet
      obtain ⟨_, rfl, inNode⟩ := changed.of_only isMarker.notMem
      obtain ⟨_, _, rfl⟩ := isMarker.isLeaf
      obtain ⟨_, rfl, inBlank⟩ := inNode.of_leaf
      obtain ⟨_, rfl, inContent⟩ := inBlank.of_leaf
      rw [← Element.ofToken, Element.signsOf, Element.signsOf,
        List.append_nil, Element.signs_node unmarked unstyled, Element.signsOf,
        Element.signsOf, Element.signs_ofToken middleLexed.head] at answered
      obtain ⟨front, remaining, rfl, inFront, isEnding, answered⟩ :=
        taken.refill inContent
          (middleLexed.of_cons.of_suffix inside.reads.suffix) ended
          (Answered.append_iff.mp answered).2.2
      obtain ⟨middle, inMiddle, here⟩ :=
        inside.refill inFront middleLexed.of_cons rfl answered
      obtain ⟨others, inTokens, isMarker⟩ := isMarker.refill inMiddle.later
      exact ⟨others, inTokens, .marked isMarker isBlank here isEnding⟩
  | @table tokens row middle rows _ isRow isRows =>
      obtain ⟨_, rfl, inTable⟩ := changed.of_only (by decide)
      rw [Element.signsOf, Element.signsOf, List.append_nil,
        Element.signs_node rfl rfl] at answered
      have middleLexed := lexed.of_suffix isRow.suffix
      rw [← List.singleton_append] at inTable
      obtain ⟨_, _, others, _, rfl, inTokens, ⟨_, rfl, here⟩, after, _⟩ :=
        refill_append inTable ended answered isRow.ends isRows
          (by
            rintro rfl
            exact isRows.eq_nil)
          (fun inRow => isRow.refill inRow lexed)
          (fun inRows => isRows.refill inRows middleLexed ended)
      exact ⟨others, inTokens, .table here after⟩
  | @codeBlock ticks _ command _ others _ isFence taken lines =>
      obtain ⟨_, rfl, inBlock⟩ := changed.of_only (by decide)
      obtain ⟨rfl, inRest⟩ := inBlock.of_leaves (by
        rw [List.cons_append, List.forall_mem_cons, List.forall_mem_append,
          List.forall_mem_map]
        exact ⟨⟨_, _, rfl⟩, fun _ _ => ⟨_, _, rfl⟩, lines.isLeaf⟩)
      obtain ⟨middle, inMiddle, after⟩ := lines.refill inRest
      rw [eq_append_of_takeLine taken]
      exact ⟨_, (inMiddle.append command).append ticks,
        .codeBlock isFence (takeLine_refill taken inMiddle) after⟩
  | text starts inside taken =>
      obtain ⟨front, remaining, rfl, inFront, isEnding, answered⟩ :=
        taken.refill changed (lexed.of_suffix inside.reads.suffix) ended answered
      obtain ⟨others, inTokens, here⟩ :=
        inside.refill inFront lexed rfl answered
      exact ⟨others, inTokens, .text (inTokens.startsText starts) here isEnding⟩

end Line

namespace Parse

/-- The lines of a paragraph are read from the refilled tokens. -/
theorem Lines.refill
    (lines : Lines tokens elements rest)
    (changed : refilling.Parts elements rest refilled left)
    (lexed : AllLexed tokens)
    (ended : left = [] → following = [])
    (answered : Answered .newline following (Element.signsOf false refilled)) :
    ∃ others, refilling.Tokens tokens others ∧ Lines others refilled left := by
  induction lines generalizing refilled left with
  | last block stops =>
      obtain ⟨others, inTokens, here⟩ :=
        block.refill changed lexed ended answered
      exact ⟨others, inTokens, .last here (by rw [changed.atVisible, stops])⟩
  | @next tokens elements middle others rest block goesOn lines
      inductionHypothesis =>
      have middleLexed := lexed.of_suffix block.suffix
      obtain ⟨_, _, others, _, rfl, inTokens, here, after, isVisible⟩ :=
        Line.refill_append changed ended answered block.ends lines
          (by
            rintro rfl
            cases goesOn)
          (fun inBlock => block.refill inBlock lexed)
          (fun inLines => inductionHypothesis inLines middleLexed ended)
      exact ⟨others, inTokens, .next here (by rw [isVisible, goesOn]) after⟩

/-- A source makes the same sections after a node has been refilled, if all
delimiters have right answers then. -/
theorem Layout.refill
    (layout : Layout tokens elements)
    (changed : refilling.Elements elements refilled)
    (lexed : AllLexed tokens)
    (fresh : IsFresh previous ∨ Line.atLineEnd tokens = true)
    (answered : Answered previous [] (Element.signsOf false refilled)) :
    ∃ others, refilling.Tokens tokens others ∧ Layout others refilled := by
  induction layout generalizing previous refilled with
  | nil => exact absurd changed Elements.not_of_nil
  | @blank token rest others isBlank layout inductionHypothesis =>
      obtain ⟨later, rfl, inLater⟩ := changed.of_leaf
      rw [← Element.ofToken, Element.signsOf, Element.signs_ofToken lexed.head,
        Answered.append_iff] at answered
      obtain ⟨rest, inRest, after⟩ := inductionHypothesis inLater lexed.of_cons
        (isFresh_of_atBlankLine isBlank) answered.2
      exact ⟨_, inRest.later,
        .blank (by rw [inRest.later.atBlankLine, isBlank]) after⟩
  | @paragraph tokens children rest others visible lines layout
      inductionHypothesis =>
      have isFresh := isFresh_of_atVisible fresh visible
      rcases changed.of_cons with
        ⟨same, _⟩ | ⟨_, _, inner, same, rfl, inChildren⟩ | ⟨later, rfl, inLater⟩
      · have encloses := refilling.encloses.mem
        rw [(Element.node.inj same).1] at encloses
        exact absurd encloses (by decide)
      · cases same
        rw [Element.signsOf, Element.signs_node rfl rfl, Answered.append_iff]
          at answered
        obtain ⟨others, inTokens, here⟩ :=
          lines.refill (.inside inChildren) lexed (by
            rintro rfl
            rw [layout.eq_nil]
            rfl) ((Answered.congr_previous isFresh).mp answered.1)
        exact ⟨others, inTokens,
          .paragraph (by rw [inTokens.atVisible, visible]) here layout⟩
      · rw [Element.signsOf, Element.signs_node rfl rfl, Answered.append_iff]
          at answered
        obtain ⟨rest, inRest, after⟩ := inductionHypothesis inLater
          (lexed.of_suffix lines.suffix) (lines.isFresh previous) answered.2
        obtain ⟨others, inTokens, here⟩ :=
          lines.refill (.after inRest) lexed
            (fun empty => absurd empty inRest.ne_nil.2)
            ((Answered.congr_previous isFresh).mp answered.1)
        exact ⟨others, inTokens,
          .paragraph (by rw [inTokens.atVisible, visible]) here after⟩

end Parse

end Markup
end NotePress
