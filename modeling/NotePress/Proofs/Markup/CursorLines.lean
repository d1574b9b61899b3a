import NotePress.Proofs.Markup.CursorRules
import NotePress.Proofs.Markup.Lookahead

/-!
# Where the rules for lines stop

The rules for lines come to an end behind the line ending, or where the input ends:
the rest of a line and a table row right behind the first ending, tables and code
blocks behind that of their last line (`yields_line`). From the start of a line they
write what the grammar lays out.
-/

namespace NotePress
namespace Markup

/-- What is derived at the start of a line is derived behind a line ending. -/
theorem Inline.Derives.of_isFresh
    (derives : Derives stops previous tokens content last left)
    (fresh : Parse.IsFresh previous) :
    ∃ final, Derives stops .newline tokens content final left := by
  have same (mark : Kind) (others : List Token) :
      opens previous mark others = opens .newline mark others := by
    rw [opens, fresh mark, ← opens]
  cases derives with
  | done stopped => exact ⟨_, .done stopped⟩
  | atom goesOn unstyled atom others =>
      exact ⟨_, .atom goesOn unstyled atom others⟩
  | mark goesOn isStyle closed others =>
      exact ⟨_, .mark goesOn isStyle (same _ _ ▸ closed) others⟩
  | closed goesOn isStyle opens inside isClosing others =>
      exact ⟨_, .closed goesOn isStyle (same _ _ ▸ opens) inside isClosing
        others⟩
  | unclosed goesOn isStyle opens inside ended =>
      exact ⟨_, .unclosed goesOn isStyle (same _ _ ▸ opens) inside ended⟩

/-- Rows in front of which a bar comes begin with a row. -/
theorem Line.Rows.exists_row
    (rows : Rows tokens elements rest)
    (starts : startsWith .pipe tokens = true) :
    ∃ row middle others, elements = row :: others ∧ Row tokens row middle ∧
      Rows middle others rest := by
  cases rows with
  | done other => exact absurd starts (by simp [other])
  | next row others => exact ⟨_, _, _, rfl, row, others⟩

namespace Cursor

/-! ## Ends of lines -/

/-- Whether the end of the input is found before some tokens: none is left, or the
next one has the kind that is found behind the last one. -/
def inputEnds : List Token → Bool
  | [] => true
  | first :: _ => first.kind == .endOfInput

/-- The tokens up to the end of a line, and the line ending. It may be missing where
the input ends. -/
inductive RestOfLine : List Token → List Token → Prop
  | ended :
      OnLine inside →
      ending.kind = .newline →
      RestOfLine (inside ++ [ending]) left
  | last :
      OnLine inside →
      inputEnds left = true →
      RestOfLine inside left

/-- Tokens that end with a line ending, unless the input ends behind them. -/
def WholeLines (taken left : List Token) : Prop :=
  inputEnds left = true ∨
    ∃ inside ending, taken = inside ++ [ending] ∧ ending.kind = .newline

theorem RestOfLine.append
    (front : OnLine inside)
    (rest : RestOfLine taken left) :
    RestOfLine (inside ++ taken) left := by
  cases rest with
  | ended onLine newline =>
      rw [← List.append_assoc]
      exact .ended (front.append onLine) newline
  | last onLine ends => exact .last (front.append onLine) ends

/-- The rest of a line ends with its line ending. -/
theorem RestOfLine.wholeLines (rest : RestOfLine taken left) :
    WholeLines taken left := by
  cases rest with
  | ended _ newline => exact .inr ⟨_, _, rfl, newline⟩
  | last _ ends => exact .inl ends

theorem WholeLines.append
    (ends : WholeLines taken left)
    (front : List Token) :
    WholeLines (front ++ taken) left :=
  ends.imp_right fun ⟨inside, ending, same, newline⟩ =>
    ⟨front ++ inside, ending, by rw [same, List.append_assoc], newline⟩

section

variable {cursor : Cursor} {token : Token} {others : List Token}

/-- Where no token has the kind of the end of the input, the input ends behind the last
token only. -/
theorem WithoutEnd.eq_nil
    (withoutEnd : cursor.WithoutEnd)
    (ends : inputEnds cursor.rest = true) :
    cursor.rest = [] := by
  cases next : cursor.rest with
  | nil => rfl
  | cons token others =>
      rw [next] at ends
      exact absurd (eq_of_beq ends)
        (withoutEnd.ne_of_mem (next ▸ List.mem_cons_self))

theorem endsLine_one (next : cursor.rest = token :: others) :
    cursor.endsLine 1 = (Line.atLineEnd others || inputEnds others) := by
  rw [endsLine, nth_eq, next]
  cases others <;> rfl

/-! ## The rest of a line -/

/-- A cursor is at the end of a line where the grammar sees one. -/
theorem atLineEnd_eq (cursor : Cursor) :
    (cursor.atEnd || cursor.isAt .newline) = Line.atLineEnd cursor.rest := by
  cases next : cursor.rest with
  | nil => rw [atEnd_iff.mpr next]; rfl
  | cons token others =>
      rw [atEnd_of_cons next, isAt_of_cons next]
      rfl

/-- What reading a line ending does where a line ends. -/
structure IsEnding
    (cursor : Cursor)
    (taken : List Token)
    (elements : List Element)
    (next : Cursor) : Prop where
  stops : ∀ {inside}, OnLine inside → RestOfLine (inside ++ taken) next.rest
  ended : Line.atLineEnd cursor.rest = true → taken = [] → next.rest = []
  ending : next.WithoutEnd → Line.Ending cursor.rest elements next.rest

/-- A line ending is read where a line ends, if there is one. -/
theorem yields_ending
    (stopped : Line.atLineEnd cursor.rest = true ∨ inputEnds cursor.rest = true) :
    Yields cursor (some (cursor.eat .newline).2) (IsEnding cursor) := by
  by_cases newline : cursor.isAt .newline = true
  · cases next : cursor.rest with
    | nil => simp [isAt, current_of_nil next] at newline
    | cons ending after =>
        have isEnding : ending.kind = .newline := by
          simpa [isAt_of_cons next] using newline
        have passes := passes_bump next
        rw [eat_of_cons next isEnding]
        refine .of_passes passes ⟨fun onLine => .ended onLine isEnding,
          fun _ nothing => absurd nothing (List.cons_ne_nil _ _),
          fun _ => ?_⟩
        rw [passes.rest]
        exact .taken isEnding
  · rw [eat_of_not_isAt (by simpa using newline)]
    have nothing (ended : Line.atLineEnd cursor.rest = true) :
        cursor.rest = [] := by
      rw [← atLineEnd_eq, Bool.or_eq_true] at ended
      exact atEnd_iff.mp (ended.resolve_right newline)
    have ends : inputEnds cursor.rest = true :=
      stopped.elim (fun ended => by rw [nothing ended]; rfl) id
    refine .of_passes (.refl cursor) ⟨fun onLine => ?_,
      fun ended _ => nothing ended, fun withoutEnd => ?_⟩
    · rw [List.append_nil]
      exact .last onLine ends
    · rw [withoutEnd.eq_nil ends]
      exact .missing

/-- What the rest of a line is. -/
structure IsLineRest
    (cursor : Cursor)
    (taken : List Token)
    (elements : List Element)
    (next : Cursor) : Prop where
  stops : RestOfLine taken next.rest
  ended : taken = [] → next.rest = []
  derives : next.WithoutEnd →
    ∃ content last left ending, elements = content ++ ending ∧
      Inline.Derives (fun _ => false) cursor.previous cursor.rest content last
        left ∧
      Line.Ending left ending next.rest

/-- The rest of a line is read up to its ending. -/
theorem yields_restOfLine (cursor : Cursor) :
    Yields cursor cursor.restOfLine (IsLineRest cursor) := by
  refine (yields_inlineUntil (fun _ => false) cursor).bind fun _ run => ?_
  have ended := Line.atLineEnd_of_stopsAt run.stopped
  refine (yields_ending (.inl ended)).mono fun passes ending =>
    ⟨ending.stops run.onLine, fun nothing => ?_, fun withoutEnd => ?_⟩
  · exact ending.ended ended (List.append_eq_nil_iff.mp nothing).2
  · exact ⟨_, _, _, _, rfl, run.derives (withoutEnd.of_passes passes),
      ending.ending withoutEnd⟩

/-! ## Blocks -/

/-- What the lines are that the rule for a line reads. A line begins where a
delimiter opens what it opens behind a line ending. -/
structure IsBlock
    (cursor : Cursor)
    (taken : List Token)
    (elements : List Element)
    (next : Cursor) : Prop where
  nonempty : taken ≠ []
  ends : WholeLines taken next.rest
  block : next.WithoutEnd → Parse.IsFresh cursor.previous →
    Line.Block cursor.rest elements next.rest

/-- A line that starts nothing. -/
theorem yields_text
    (nonempty : cursor.rest ≠ [])
    (starts : Line.startsText cursor.rest = true) :
    Yields cursor cursor.restOfLine (IsBlock cursor) := by
  refine (yields_restOfLine cursor).mono fun passes line => ?_
  refine ⟨fun nothing => ?_, line.stops.wholeLines, fun withoutEnd fresh => ?_⟩
  · exact nonempty (by rw [passes.rest, nothing, line.ended nothing]; rfl)
  · obtain ⟨content, last, left, ending, rfl, derives, taken⟩ :=
      line.derives withoutEnd
    obtain ⟨final, fromStart⟩ := derives.of_isFresh fresh
    exact .text starts fromStart taken

/-- A line with a marker, when the marker is read as it should be. -/
theorem yields_marked
    {marker : Cursor → Cursor}
    (next : cursor.rest = front ++ token :: others)
    (isBlank : token.kind = .whitespace)
    (read : Passes cursor.openNode.2 (marker cursor.openNode.2) front [leaf])
    (onLine : OnLine front)
    (nonempty : front ≠ [])
    (isMarker : Line.Marker cursor.rest kind leaf (token :: others)) :
    Yields cursor (cursor.marked kind marker) (IsBlock cursor) := by
  have ahead := read.rest_eq next
  have blank := passes_bump ahead
  have inside : Yields cursor.openNode.2
      ((marker cursor.openNode.2).eat .whitespace).2.restOfLine
      fun taken elements next => RestOfLine taken next.rest ∧ taken ≠ [] ∧
        (next.WithoutEnd → ∃ content last left ending,
          elements = leaf :: .ofToken token :: content ++ ending ∧
          Inline.Derives (fun _ => false) token.kind others content last left ∧
          Line.Ending left ending next.rest) := by
    rw [eat_of_cons ahead isBlank]
    refine .after (read.trans blank) ((yields_restOfLine _).mono
      fun _ line => ⟨?_, by simp [nonempty], fun withoutEnd => ?_⟩)
    · exact .append (onLine.append (.single (by rw [isBlank]; decide)))
        line.stops
    · obtain ⟨content, last, left, ending, rfl, derives, taken⟩ :=
        line.derives withoutEnd
      rw [blank.previous_of_single, blank.rest_of_single ahead] at derives
      exact ⟨content, last, left, ending, rfl, derives, taken⟩
  refine inside.around kind fun _ _ ⟨stops, nonempty, derives⟩ =>
    ⟨nonempty, stops.wholeLines, fun withoutEnd _ => ?_⟩
  obtain ⟨content, last, left, ending, rfl, derives, taken⟩ :=
    derives withoutEnd
  exact .marked isMarker isBlank derives taken

/-- A line with one token as its marker. -/
theorem yields_item
    (next : cursor.rest = token :: others)
    (visible : token.kind ≠ .newline)
    (spaced : Line.startsWith .whitespace others = true)
    (isMarker :
      Line.Marker (token :: others) kind (.leaf marker token.text) others) :
    Yields cursor (cursor.marked kind (·.bumpAs marker)) (IsBlock cursor) := by
  cases others with
  | nil => cases spaced
  | cons blank middle =>
      have read := passes_opening next marker
      have ahead : cursor.rest = [token] ++ blank :: middle := next
      exact yields_marked ahead (eq_of_beq spaced) read (.single visible)
        (List.cons_ne_nil _ _) (next ▸ isMarker)

/-- A heading is read with its line. -/
theorem yields_heading
    (found : Line.headingLevel? cursor.rest = some level) :
    Yields cursor
      (cursor.marked .heading (·.bumpMany level .headingMarker))
      (IsBlock cursor) := by
  have whole := List.takeWhile_append_dropWhile (p := (·.kind == .hash))
    (l := cursor.rest)
  have isHash : ∀ hash ∈ cursor.rest.takeWhile (·.kind == .hash),
      hash.kind = .hash := by
    intro hash member
    simpa using List.mem_takeWhile_imp member
  unfold Line.headingLevel? at found
  simp only [Option.ite_none_right_eq_some, Bool.and_eq_true, decide_eq_true_eq,
    Option.some.injEq] at found
  obtain ⟨⟨⟨positive, short⟩, spaced⟩, rfl⟩ := found
  generalize cursor.rest.takeWhile (·.kind == .hash) = hashes at *
  cases remains : cursor.rest.dropWhile (·.kind == .hash) with
  | nil =>
      rw [remains] at spaced
      cases spaced
  | cons blank middle =>
      rw [remains] at whole spaced
      have nonempty := List.length_pos_iff.mp positive
      have read := passes_bumpMany hashes nonempty
        (show cursor.openNode.2.rest = _ from whole.symm) .headingMarker
      refine yields_marked whole.symm (eq_of_beq spaced) read ?_ nonempty ?_
      · intro hash member
        rw [isHash hash member]
        decide
      · rw [← whole]
        exact .heading nonempty short isHash

/-! ## Tables -/

/-- What a cursor stands at is the first of its tokens. -/
theorem isAt_eq
    (cursor : Cursor)
    (isMark : mark ≠ .endOfInput) :
    cursor.isAt mark = Line.startsWith mark cursor.rest := by
  cases next : cursor.rest with
  | nil =>
      rw [isAt, current_of_nil next, Line.startsWith]
      exact beq_eq_false_iff_ne.mpr isMark.symm
  | cons token others => exact isAt_of_cons next mark

/-- A cell is read up to the next bar or the end of the line. -/
theorem yields_tableCell (cursor : Cursor) :
    Yields cursor cursor.tableCell fun taken elements next =>
      ∃ content, elements = [.node .tableCell content] ∧
        IsRun (· == .pipe) cursor taken content next :=
  (yields_inlineUntil (· == .pipe) cursor.openNode.2).around .tableCell
    fun _ _ run => ⟨_, rfl, run.onLine, run.stopped, run.derives⟩

/-- What the cells of a table row are. -/
structure IsCells
    (cursor : Cursor)
    (taken : List Token)
    (elements : List Element)
    (next : Cursor) : Prop where
  onLine : OnLine taken
  stopped : Line.atLineEnd next.rest = true ∨ inputEnds next.rest = true
  cells : next.WithoutEnd → cursor.previous = .pipe →
    Line.Cells cursor.rest elements next.rest

/-- There are no cells where a line ends. -/
theorem cells_of_atLineEnd (ended : Line.atLineEnd cursor.rest = true) :
    cursor.cells = some cursor := by
  rw [cells, atLineEnd_eq, if_pos ended]

/-- The blank before the end of a row. -/
theorem yields_blank
    (next : cursor.rest = token :: others)
    (isBlank : token.kind = .whitespace)
    (ends : cursor.endsLine 1 = true) :
    Yields cursor (some cursor.bump) (IsCells cursor) := by
  have passes := passes_bump next
  have left := passes.rest_of_single next
  rw [endsLine_one next, Bool.or_eq_true] at ends
  refine .of_passes passes ⟨.single (by rw [isBlank]; decide), ?_,
    fun withoutEnd _ => ?_⟩
  · rwa [left]
  · rw [next, left]
    refine .blank isBlank (ends.elim id fun inputEnds => ?_)
    rw [← left] at inputEnds ⊢
    rw [withoutEnd.eq_nil inputEnds]
    rfl

/-- The cells come to an end with the line. The tokens that are left get fewer with
each cell: one that holds no token ends at a pipe, which is read. -/
theorem yields_cells (cursor : Cursor) :
    Yields cursor cursor.cells (IsCells cursor) := by
  -- The induction is on the tokens that are left, as the loop over the cells ends.
  induction size : cursor.rest.length using Nat.strong_induction_on
    generalizing cursor with
  | _ bound inductionHypothesis =>
  by_cases ended : Line.atLineEnd cursor.rest = true
  · rw [cells_of_atLineEnd ended]
    exact .of_passes (.refl cursor)
      ⟨List.forall_mem_nil _, .inl ended, fun _ _ => .done ended⟩
  cases next : cursor.rest with
  | nil => exact absurd (by rw [next]; rfl) ended
  | cons token others =>
      rw [cells, atLineEnd_eq, if_neg ended]
      by_cases blank : (cursor.isAt .whitespace && cursor.endsLine 1) = true
      · rw [if_pos blank]
        rw [Bool.and_eq_true, isAt_of_cons next, beq_iff_eq] at blank
        exact yields_blank next blank.1 blank.2
      rw [if_neg blank]
      have visible : Line.atVisible (token :: others) = true := by
        rw [next] at ended
        rw [isAt_of_cons next, endsLine_one next] at blank
        by_cases space : token.kind = .whitespace <;>
          simp_all [Line.atVisible, Parse.atBlankLine, Line.atLineEnd]
      refine (yields_tableCell cursor).bind fun {inside _ middle} passes cell => ?_
      obtain ⟨content, rfl, run⟩ := cell
      obtain ⟨_, tail, delimiter, same, last, closing⟩ :=
        yields_closeDelimiter middle (show Kind.pipe ≠ .endOfInput by decide)
      obtain rfl := Option.some.inj same
      refine .after last ?_
      rcases closing with ⟨bar, isPipe, rfl, rfl⟩ | ⟨rfl, rfl, other⟩
      · have shorter := last.shorter (List.cons_ne_nil _ _)
        have count := congrArg List.length passes.rest
        rw [List.length_append] at count
        refine (inductionHypothesis _ (by omega) _ rfl).mono
          fun further parts => ⟨?_, parts.stopped, fun withoutEnd isStart => ?_⟩
        · exact run.onLine.append
            ((OnLine.single (by rw [isPipe]; decide)).append parts.onLine)
        · have lastWithoutEnd := withoutEnd.of_passes further
          have derives := run.derives (lastWithoutEnd.of_passes last)
          rw [isStart, last.rest] at derives
          rw [next] at derives ⊢
          exact .cell visible derives isPipe (parts.cells withoutEnd
            ((last.previous rfl).trans isPipe))
      · have stopped := run.stopped
        rw [last.rest, List.nil_append] at stopped
        have endsHere := Line.atLineEnd_of_stopsAt_of_startsWith stopped other
        rw [cells_of_atLineEnd endsHere]
        refine .of_passes (.refl _)
          ⟨?_, .inl endsHere, fun withoutEnd isStart => ?_⟩
        · exact run.onLine.append (List.forall_mem_nil _)
        · have derives := run.derives (withoutEnd.of_passes last)
          rw [isStart, last.rest] at derives
          rw [next] at derives ⊢
          exact .lastCell visible derives endsHere

/-- What a table row is. -/
structure IsRow
    (cursor : Cursor)
    (taken : List Token)
    (elements : List Element)
    (next : Cursor) : Prop where
  nonempty : taken ≠ []
  stops : RestOfLine taken next.rest
  row : next.WithoutEnd → cursor.current = .pipe →
    ∃ row, elements = [row] ∧ Line.Row cursor.rest row next.rest

/-- A row is read with the ending of its line. -/
theorem yields_tableRow
    (next : cursor.rest = token :: others)
    (visible : token.kind ≠ .newline) :
    Yields cursor cursor.tableRow (IsRow cursor) := by
  have first := passes_opening next .delimiter
  have ahead := first.rest_of_single next
  have inside : Yields cursor.openNode.2
      (do
        let parts ← (cursor.openNode.2.bumpAs .delimiter).cells
        return (parts.eat .newline).2)
      fun taken elements next => taken ≠ [] ∧ RestOfLine taken next.rest ∧
        (next.WithoutEnd → token.kind = .pipe → ∃ parts middle ending,
          elements = .ofDelimiter token :: parts ++ ending ∧
          Line.Cells others parts middle ∧
          Line.Ending middle ending next.rest) := by
    refine .after first ((yields_cells _).bind fun {_ content middle} _ parts => ?_)
    refine (yields_ending parts.stopped).mono fun passes ending =>
      ⟨by simp, ?_, fun withoutEnd isPipe => ?_⟩
    · exact .append (.single visible) (ending.stops parts.onLine)
    · have cells := parts.cells (withoutEnd.of_passes passes)
        (first.previous_of_single.trans isPipe)
      rw [ahead] at cells
      exact ⟨content, middle.rest, _, rfl, cells, ending.ending withoutEnd⟩
  refine inside.around .tableRow fun _ _ ⟨nonempty, stops, parts⟩ =>
    ⟨nonempty, stops, fun withoutEnd isPipe => ?_⟩
  rw [current_of_cons next] at isPipe
  obtain ⟨parts, middle, ending, rfl, cells, taken⟩ := parts withoutEnd isPipe
  rw [next]
  exact ⟨_, rfl, .row isPipe cells taken⟩

/-- What the rows of a table are. -/
structure IsRows
    (cursor : Cursor)
    (taken : List Token)
    (elements : List Element)
    (next : Cursor) : Prop where
  ends : taken = [] ∨ WholeLines taken next.rest
  nonempty : cursor.isAt .pipe = true → taken ≠ []
  rows : next.WithoutEnd → Line.Rows cursor.rest elements next.rest

/-- Rows are read as long as lines start with a bar. -/
theorem yields_tableRows (cursor : Cursor) :
    Yields cursor cursor.tableRows (IsRows cursor) := by
  induction size : cursor.rest.length using Nat.strong_induction_on
    generalizing cursor with
  | _ bound inductionHypothesis =>
  rw [tableRows]
  split
  · rename_i isPipe
    cases next : cursor.rest with
    | nil => simp [isAt, current_of_nil next] at isPipe
    | cons bar others =>
        have visible : bar.kind ≠ .newline := by
          rw [isAt_of_cons next, beq_iff_eq] at isPipe
          rw [isPipe]
          decide
        refine (yields_tableRow next visible).bind fun passes row => ?_
        have shorter := passes.shorter row.nonempty
        refine (inductionHypothesis _ (size ▸ shorter) _ rfl).mono
          fun further rows => ⟨.inr ?_, fun _ => by simp [row.nonempty],
            fun withoutEnd => ?_⟩
        · rcases rows.ends with rfl | ends
          · have ends := row.stops.wholeLines
            rw [further.rest] at ends
            rw [List.append_nil]
            exact ends
          · exact ends.append _
        · obtain ⟨row, rfl, isRow⟩ :=
            row.row (withoutEnd.of_passes further) (eq_of_beq isPipe)
          exact .next isRow (rows.rows withoutEnd)
  · rename_i notPipe
    refine .of_passes (.refl cursor) ⟨.inl rfl, fun isPipe => absurd isPipe notPipe,
      fun _ => .done ?_⟩
    rw [← isAt_eq cursor (by decide)]
    exact Bool.eq_false_iff.mpr notPipe

/-- A table is a node around its rows. -/
theorem yields_table
    (isPipe : cursor.isAt .pipe = true) :
    Yields cursor (cursor.around .table tableRows) (IsBlock cursor) := by
  refine (yields_tableRows cursor.openNode.2).around .table
    fun {_ _ inside} events _ rows => ⟨rows.nonempty isPipe,
      rows.ends.resolve_left (rows.nonempty isPipe), fun withoutEnd _ => ?_⟩
  rw [isAt_eq cursor (by decide)] at isPipe
  obtain ⟨row, middle, others, rfl, first, others⟩ :=
    (rows.rows withoutEnd).exists_row isPipe
  exact .table first others

/-! ## Code blocks -/

/-- A line that is taken ends with its ending. -/
theorem wholeLines_takeLine (tokens : List Token) :
    WholeLines (Line.takeLine tokens).1 (Line.takeLine tokens).2 := by
  induction tokens with
  | nil => exact .inl rfl
  | cons first others inductionHypothesis =>
      rw [Line.takeLine]
      split
      · rename_i newline
        exact .inr ⟨[], first, rfl, newline⟩
      · exact inductionHypothesis.append [first]

/-- What reading a line token by token does. -/
structure IsRawLine
    (leaf : Kind → Kind)
    (cursor : Cursor)
    (taken : List Token)
    (elements : List Element)
    (next : Cursor) : Prop where
  line : Line.takeLine cursor.rest = (taken, next.rest)
  kept : elements = taken.map fun token =>
    if token.kind = .newline then .ofToken token
    else .leaf (leaf token.kind) token.text

/-- A line that goes on has its next token read, and then the rest of it. -/
theorem bumpLine_of_cons
    (leaf : Kind → Kind)
    (next : cursor.rest = token :: others)
    (visible : token.kind ≠ .newline) :
    cursor.bumpLine leaf =
      (cursor.bumpAs (leaf cursor.current)).bumpLine leaf := by
  have goesOn : ¬(cursor.atEnd || !(cursor.current != .newline)) = true := by
    rw [atEnd_of_cons next, current_of_cons next]
    simpa using visible
  rw [bumpLine, bumpWhile, if_neg goesOn, ← bumpLine]

theorem bumpLine_of_atLineEnd
    (leaf : Kind → Kind)
    (ended : Line.atLineEnd cursor.rest = true) :
    cursor.bumpLine leaf = some (cursor.eat .newline).2 := by
  have stops : (cursor.atEnd || !(cursor.current != .newline)) = true := by
    rw [← atLineEnd_eq] at ended
    simpa [isAt] using ended
  rw [bumpLine, bumpWhile, if_pos stops]
  rfl

/-- Reading a line token by token stops behind its ending. -/
theorem yields_bumpLine
    (leaf : Kind → Kind)
    (cursor : Cursor) :
    Yields cursor (cursor.bumpLine leaf) (IsRawLine leaf cursor) := by
  generalize next : cursor.rest = tokens
  induction tokens generalizing cursor with
  | nil =>
      rw [bumpLine_of_atLineEnd leaf (by rw [next]; rfl)]
      have notNewline : cursor.isAt .newline = false := by
        rw [isAt, current_of_nil next]
        rfl
      rw [eat_of_not_isAt notNewline]
      exact .of_passes (.refl cursor) ⟨by rw [next]; rfl, rfl⟩
  | cons token others inductionHypothesis =>
      by_cases newline : token.kind = .newline
      · rw [bumpLine_of_atLineEnd leaf (by rw [next]; exact beq_iff_eq.mpr newline),
          eat_of_cons next newline]
        have passes := passes_bump next
        refine .of_passes passes ⟨?_, by simp [newline]⟩
        rw [passes.rest_of_single next, next, Line.takeLine,
          if_pos newline]
      · rw [bumpLine_of_cons leaf next newline]
        have first := passes_bumpAs next (leaf cursor.current)
        have ahead := first.rest_of_single next
        refine .after first ((inductionHypothesis _ ahead).mono
          fun _ line => ⟨?_, ?_⟩)
        · have found := line.line
          rw [ahead] at found
          rw [next, Line.takeLine, if_neg newline, found]
          rfl
        · rw [List.singleton_append, List.singleton_append, List.map_cons,
            if_neg newline, line.kept, current_of_cons next]

/-- A line that was read ends with its ending. -/
theorem IsRawLine.wholeLines
    (line : IsRawLine leaf cursor taken elements last) :
    WholeLines taken last.rest := by
  have ends := wholeLines_takeLine cursor.rest
  rwa [line.line] at ends

/-- A line that is kept as it is. -/
theorem IsRawLine.map_ofToken
    (line : IsRawLine id cursor taken elements last) :
    elements = taken.map .ofToken := by
  rw [line.kept]
  refine List.map_congr_left fun token _ => ?_
  split <;> rfl

/-- A cursor sees a fence where the grammar does. -/
theorem atFence_eq (cursor : Cursor) :
    cursor.atFence = Line.atFence cursor.rest := by
  rw [atFence, nth_eq, nth_eq, nth_eq]
  match cursor.rest with
  | [] => rfl
  | [_] => simp [Line.atFence]
  | [_, _] => simp [Line.atFence]
  | _ :: _ :: _ :: _ => rfl

/-- Three backticks are read as one delimiter. -/
theorem exists_fence (fenced : cursor.atFence = true) :
    ∃ ticks after, cursor.rest = ticks ++ after ∧ Line.IsFence ticks ∧
      Passes cursor (cursor.bumpMany 3 .delimiter) ticks
        [Line.glued .delimiter ticks] := by
  rw [atFence_eq] at fenced
  have isFence := Line.isFence_take fenced
  have whole := (List.take_append_drop 3 cursor.rest).symm
  have nonempty : cursor.rest.take 3 ≠ [] := by
    rw [← List.length_pos_iff, isFence.length]
    decide
  have passes := passes_bumpMany _ nonempty whole .delimiter
  rw [isFence.length] at passes
  exact ⟨_, _, whole, isFence, passes⟩

/-- What the lines of a code block after its first are. -/
structure IsCode
    (cursor : Cursor)
    (taken : List Token)
    (elements : List Element)
    (next : Cursor) : Prop where
  ends : WholeLines taken next.rest
  lines : Line.CodeLines cursor.rest elements next.rest

/-- The lines of a code block are read up to the closing fence, or to the end. -/
theorem yields_codeLines (cursor : Cursor) :
    Yields cursor cursor.codeLines (IsCode cursor) := by
  induction size : cursor.rest.length using Nat.strong_induction_on
    generalizing cursor with
  | _ bound inductionHypothesis =>
  rw [codeLines]
  split
  · rename_i ended
    rw [atEnd_iff] at ended
    refine .of_passes (.refl cursor) ⟨.inl ?_, ?_⟩
    · rw [ended]
      rfl
    · rw [ended]
      exact .missing
  rename_i goesOn
  split
  · rename_i fenced
    obtain ⟨ticks, after, whole, isFence, passes⟩ := exists_fence fenced
    refine .after passes ((yields_bumpLine _ _).mono fun _ line =>
      ⟨line.wholeLines.append _, ?_⟩)
    have taken := line.line
    rw [passes.rest_eq whole] at taken
    rw [whole, line.kept]
    exact .fence isFence taken
  · rename_i unfenced
    refine (yields_bumpLine id cursor).bind fun {front _ middle} passes line => ?_
    cases next : cursor.rest with
    | nil => exact absurd (atEnd_iff.mpr next) goesOn
    | cons first others =>
        have nonempty : front ≠ [] := by
          have taken := line.line
          rintro rfl
          rw [next, Line.takeLine] at taken
          split at taken <;> cases taken
        have shorter := passes.shorter nonempty
        refine (inductionHypothesis _ (size ▸ shorter) _ rfl).mono
          fun _ code => ⟨code.ends.append _, ?_⟩
        have taken := line.line
        rw [atFence_eq] at unfenced
        rw [next] at taken unfenced
        rw [line.map_ofToken, next]
        exact .line (by simpa using unfenced) taken code.lines

/-- A code block is read with its fences. -/
theorem yields_codeBlock (fenced : cursor.atFence = true) :
    Yields cursor cursor.codeBlock (IsBlock cursor) := by
  obtain ⟨ticks, after, whole, isFence, passes⟩ :=
    exists_fence (show cursor.openNode.2.atFence = true from fenced)
  have inside : Yields cursor.openNode.2
      (do
        let first ← (cursor.openNode.2.bumpMany 3 .delimiter).bumpLine id
        first.codeLines)
      fun taken elements next => taken ≠ [] ∧ WholeLines taken next.rest ∧
        ∃ command middle others,
          elements =
            Line.glued .delimiter ticks :: command.map .ofToken ++ others ∧
          Line.takeLine after = (command, middle) ∧
          Line.CodeLines middle others next.rest := by
    refine .after passes ((yields_bumpLine id _).bind
      fun {command _ middle} _ line => (yields_codeLines _).mono
        fun {_ others _} _ code => ⟨?_, ?_, command, middle.rest, others, ?_, ?_,
          code.lines⟩)
    · rintro nothing
      have count := isFence.length
      rw [(List.append_eq_nil_iff.mp nothing).1] at count
      cases count
    · exact (code.ends.append _).append _
    · rw [line.map_ofToken]
      rfl
    · have taken := line.line
      rwa [passes.rest_eq whole] at taken
  refine inside.around .codeBlock fun _ _ ⟨nonempty, ends, code⟩ =>
    ⟨nonempty, ends, fun _ _ => ?_⟩
  obtain ⟨command, middle, others, rfl, line, code⟩ := code
  have fenceAhead : cursor.rest = ticks ++ after := whole
  rw [fenceAhead]
  exact .codeBlock isFence line code

/-! ## Lines -/

/-- The rule for a line comes to an end behind a line ending, or where the input
ends. -/
theorem yields_line
    (next : cursor.rest = token :: others)
    (visible : token.kind ≠ .newline) :
    Yields cursor cursor.line (IsBlock cursor) := by
  have text (starts : Line.startsText (token :: others) = true) :
      Yields cursor cursor.restOfLine (IsBlock cursor) :=
    yields_text (by simp [next]) (next ▸ starts)
  have spaced : (cursor.nth 1 == .whitespace) =
      Line.startsWith .whitespace others := by
    rw [nth_eq, next]
    cases others <;> rfl
  rw [line, current_of_cons next]
  split
  · rename_i isHash
    split
    · rename_i found
      exact yields_heading found
    · rename_i missing
      rw [next] at missing
      exact text (by simp [Line.startsText, isHash, missing])
  · rename_i isDash
    rw [spaced]
    split
    · rename_i spaced
      exact yields_item next visible spaced (.unorderedItem (.inl isDash))
    · rename_i unspaced
      exact text (by simpa [Line.startsText, isDash] using unspaced)
  · rename_i isStar
    rw [spaced]
    split
    · rename_i spaced
      exact yields_item next visible spaced (.unorderedItem (.inr isStar))
    · rename_i unspaced
      exact text (by simpa [Line.startsText, isStar] using unspaced)
  · rename_i isText
    rw [spaced, nthText_eq, next, List.getElem?_cons_zero, Option.elim_some]
    split
    · rename_i numbered
      rw [Bool.and_eq_true] at numbered
      exact yields_item next visible numbered.2
        (.orderedItem isText numbered.1)
    · rename_i plain
      exact text (by simpa only [Line.startsText, isText, Bool.not_eq_true'] using
        Bool.eq_false_iff.mpr plain)
  · rename_i isPipe
    exact yields_table (by rw [isAt_of_cons next, isPipe]; rfl)
  · rename_i isBacktick
    split
    · rename_i fenced
      exact yields_codeBlock fenced
    · rename_i unfenced
      rw [atFence_eq, next] at unfenced
      exact text (by simpa [Line.startsText, isBacktick] using unfenced)
  · exact text (by simp_all [Line.startsText])

end

end Cursor
end Markup
end NotePress
