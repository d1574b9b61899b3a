import NotePress.Proofs.Document.PlainText
import NotePress.Proofs.Markup.Members
import NotePress.Proofs.Markup.OpenDelimiters

/-!
# Table rows

The line of a table row holds its cells with bars around them. It always is a row
of a table. Its cells are those that were written exactly when none of them leaves
a styling delimiter open, and otherwise some cell holds a bar (`parse_rowSource`).
-/

namespace NotePress
namespace Markup

/-! ## Rows and their cells -/

/-- A row after its first bar: the cells with a bar after each, and the line
ending. -/
def barred : List String → String
  | [] => "\n"
  | cell :: cells => cell ++ "|" ++ barred cells

/-- The line of a table row. -/
def rowSource (cells : List String) : String :=
  "|" ++ barred cells

/-- The characters that end a cell, or start something whose content is not
looked at. -/
def cellMarks : List Char :=
  ['\n', '|', '`', '"', '\x7b']

/-- A text that may stand in a cell. -/
def IsCellText (text : String) : Prop :=
  ∀ mark ∈ cellMarks, mark ∉ text.toList

instance : DecidablePred IsCellText :=
  fun text => List.decidableBAll (fun mark => mark ∉ text.toList) cellMarks

/-- Whether some cell of a row leaves a styling delimiter open. -/
def leavesOpen : List String → Bool
  | [] => false
  | cell :: cells =>
      !(Inline.leftOpen (lex (rowSource cells)) .pipe [] (lex cell)).isEmpty ||
        leavesOpen cells

/-- The contents of the cells among the parts of a row. -/
def cellsOf (parts : List Element) : List (List Element) :=
  parts.filterMap fun
    | .node .tableCell content => some content
    | _ => none

/-- The text of some elements. -/
def textOf (content : List Element) : String :=
  String.join ((Element.leavesOf content).map Token.text)

/-- A bar. -/
def barToken : Token :=
  ⟨.pipe, "|"⟩

/-! ## The tokens of a row -/

theorem lex_barred_cons
    (cell : String)
    (cells : List String) :
    lex (barred (cell :: cells)) = lex cell ++ barToken :: lex (barred cells) := by
  have isSign : Lexer.punctuation? '|' = some .pipe := rfl
  have cut := Lexer.tokens_append_of_punctuation isSign cell.toList
    (barred cells).toList fun _ => rfl
  simpa [lex, barred, barToken] using cut

theorem lex_rowSource (cells : List String) :
    lex (rowSource cells) = barToken :: lex (barred cells) := by
  have isSign : Lexer.punctuation? '|' = some .pipe := rfl
  have first := Lexer.tokens_punctuation isSign (barred cells).toList
  simpa [lex, rowSource, barToken] using first

theorem isCell_lex (isCell : IsCellText cell) : Inline.IsCell (lex cell) := by
  intro token member breaks
  have noSign (kind : Kind)
      (isSign : Lexer.punctuation? (Lexer.sign kind) = some kind)
      (isMark : Lexer.sign kind ∈ cellMarks) : token.kind ≠ kind :=
    ne_kind_of_mem_lex isSign (isCell _ isMark) member
  have visible := ne_newline_of_mem_lex (isCell '\n' (by decide)) member
  simp only [Inline.cellBreaks, List.mem_cons, List.not_mem_nil, or_false]
    at breaks
  rcases breaks with newline | isMark | isMark | isMark | isMark
  · exact visible newline
  all_goals exact noSign _ (by decide) (by decide) isMark

/-! ## Reading a row cell by cell -/

/-- What becomes of a cell of a row: it ends at the bar after it, or holds that
bar. -/
inductive CellCourse
    (bar : Token)
    (later cell rest : List Token) : List Element → Prop
  | ends :
      Inline.leftOpen (bar :: later) .pipe [] cell = [] →
      Spells cell (Element.leavesOf content) →
      Line.Cells later others rest →
      CellCourse bar later cell rest
        (.node .tableCell content :: .ofDelimiter bar :: others)
  | passes :
      Inline.leftOpen (bar :: later) .pipe [] cell ≠ [] →
      bar ∈ Element.leavesOf content →
      CellCourse bar later cell rest (.node .tableCell content :: others)

/-- What is read up to a bar is what stands before it. -/
theorem eq_nil_of_isBar
    (isCell : Inline.IsCell left)
    (isBar : bar.kind = .pipe)
    (whole : bar :: middle = left ++ others) :
    left = [] := by
  cases left with
  | nil => rfl
  | cons first left =>
      obtain ⟨rfl, _⟩ := List.cons.inj whole
      exact absurd isBar (isCell.kind_ne (by decide) bar List.mem_cons_self)

theorem cellCourse_of_cells
    {cell : List Token}
    (derives : Line.Cells (cell ++ bar :: later) parts rest)
    (isBar : bar.kind = .pipe)
    (isCell : Inline.IsCell cell) :
    CellCourse bar later cell rest parts := by
  generalize whole : cell ++ bar :: later = tokens at derives
  cases derives with
  | done ended =>
      rw [← whole, isCell.not_atLineEnd isBar] at ended
      cases ended
  | blank space ended =>
      cases cell with
      | nil =>
          obtain ⟨rfl, rfl⟩ := List.cons.inj whole
          rw [isBar] at space
          cases space
      | cons first cell =>
          obtain ⟨rfl, isRest⟩ := List.cons.inj whole
          rw [← isRest, List.append_eq, isCell.of_cons.not_atLineEnd isBar] at ended
          cases ended
  | cell visible inside isEnd cells =>
      cases inside.course isBar [] rfl whole.symm isCell
        Inline.AreStyles.nil with
      | stops left suffix isRest same =>
          obtain rfl := eq_nil_of_isBar (isCell.of_suffix suffix) isEnd isRest
          obtain ⟨rfl, rfl⟩ := List.cons.inj isRest
          obtain ⟨consumed, split, spells⟩ := inside.spells
          obtain rfl := List.append_cancel_right (whole.trans split)
          exact .ends (same.trans Inline.leftOpen_nil) spells cells
      | passes _ member remainOpen => exact .passes remainOpen member
  | lastCell visible inside ended =>
      cases inside.course isBar [] rfl whole.symm isCell
        Inline.AreStyles.nil with
      | stops left suffix isRest same =>
          rw [isRest, (isCell.of_suffix suffix).not_atLineEnd isBar] at ended
          cases ended
      | passes _ member remainOpen => exact .passes remainOpen member

/-! ## The cells of a row -/

theorem cellsOf_cell
    (content parts : List Element) :
    cellsOf (.node .tableCell content :: parts) = content :: cellsOf parts := rfl

theorem cellsOf_leaf
    (kind : Kind)
    (text : String)
    (parts : List Element) :
    cellsOf (.leaf kind text :: parts) = cellsOf parts := rfl

theorem textOf_of_spells
    (spells : Spells (lex cell) (Element.leavesOf content)) :
    textOf content = cell := by
  rw [textOf, spells.join_text, join_text_lex]

/-- A text with a bar is that of no cell. -/
theorem textOf_ne_of_bar
    (member : barToken ∈ Element.leavesOf content)
    (isCell : IsCellText cell) :
    textOf content ≠ cell := by
  rintro rfl
  apply isCell '|' (by decide)
  rw [textOf, String.toList_join, List.flatMap_map]
  exact List.mem_flatMap.mpr ⟨barToken, member, List.mem_cons_self⟩

/-- Whether no cell holds a bar. -/
def AreBarless (contents : List (List Element)) : Prop :=
  ∀ content ∈ contents, ∀ leaf ∈ Element.leavesOf content, leaf.kind ≠ .pipe

/-- Nothing is read at the end of a row. -/
theorem eq_nil_of_cells
    (derives : Line.Cells tokens parts rest)
    (ended : Line.atLineEnd tokens = true) :
    parts = [] := by
  have noCell : Line.atVisible tokens = false := by
    cases tokens with
    | nil => rfl
    | cons first others =>
        have newline : first.kind = .newline := eq_of_beq ended
        simp [Line.atVisible, Parse.atBlankLine, newline]
  cases derives with
  | done => rfl
  | blank space =>
      have newline := eq_of_beq ended
      rw [space] at newline
      cases newline
  | cell visible | lastCell visible =>
      rw [noCell] at visible
      cases visible

theorem lex_barred_nil : lex (barred []) = [⟨.newline, "\n"⟩] := by
  have alone : Lexer.nextToken '\n' [] = (⟨.newline, "\n"⟩, []) := rfl
  simp [barred, lex, Lexer.tokens, alone]

/-- The cells of a row are those that were written when none of them leaves
anything open, and otherwise one of them holds a bar. -/
theorem cells_iff
    (derives : Line.Cells (lex (barred cells)) parts rest)
    (areCells : ∀ cell ∈ cells, IsCellText cell) :
    ((cellsOf parts).map textOf = cells ↔ leavesOpen cells = false) ∧
      (AreBarless (cellsOf parts) ↔ leavesOpen cells = false) := by
  induction cells generalizing parts with
  | nil =>
      rw [lex_barred_nil] at derives
      obtain rfl := eq_nil_of_cells derives rfl
      exact ⟨by simp [cellsOf, leavesOpen],
        by simp [cellsOf, leavesOpen, AreBarless]⟩
  | cons cell cells inductionHypothesis =>
      obtain ⟨isCell, others⟩ := List.forall_mem_cons.mp areCells
      rw [lex_barred_cons] at derives
      cases cellCourse_of_cells derives rfl (isCell_lex isCell) with
      | ends closed spells remaining =>
          obtain ⟨texts, barless⟩ := inductionHypothesis remaining others
          rw [← lex_rowSource] at closed
          have apart : ∀ token ∈ lex cell, token.kind ≠ .pipe :=
            (isCell_lex isCell).kind_ne (by decide)
          have noBar := spells.kind_ne apart (by decide)
          rw [cellsOf_cell, Element.ofDelimiter, cellsOf_leaf, leavesOpen, closed]
          refine ⟨by simp [textOf_of_spells spells, texts], ?_⟩
          rw [AreBarless, List.forall_mem_cons]
          simpa using ⟨fun both => barless.mp both.2, fun closed =>
            ⟨noBar, barless.mpr closed⟩⟩
      | @passes content parts remainOpen member =>
          rw [← lex_rowSource] at remainOpen
          have apart := textOf_ne_of_bar member isCell
          have holdsBar : ¬ AreBarless (content :: cellsOf parts) :=
            fun barless => barless content List.mem_cons_self barToken member rfl
          refine ⟨by simp [cellsOf_cell, leavesOpen, remainOpen, apart], ?_⟩
          simp [cellsOf_cell, leavesOpen, remainOpen, holdsBar]

/-! ## The tree of a row -/

/-- A row is a line of its own. -/
theorem exists_line (areCells : ∀ cell ∈ cells, IsCellText cell) :
    ∃ line, lex (barred cells) = line ++ [⟨.newline, "\n"⟩] ∧ OnLine line := by
  induction cells with
  | nil => exact ⟨[], lex_barred_nil, fun _ member => nomatch member⟩
  | cons cell cells inductionHypothesis =>
      obtain ⟨isCell, others⟩ := List.forall_mem_cons.mp areCells
      obtain ⟨line, whole, onLine⟩ := inductionHypothesis others
      refine ⟨lex cell ++ barToken :: line, by simp [lex_barred_cons, whole], ?_⟩
      exact List.forall_mem_append.mpr
        ⟨(isCell_lex isCell).kind_ne (by decide),
          List.forall_mem_cons.mpr ⟨by decide, onLine⟩⟩

/-- Nothing is left after the end of the only line. -/
theorem eq_nil_of_ending
    (ends : Line.Ending middle ending rest)
    (suffix : middle <:+ line ++ [last])
    (onLine : OnLine line) :
    rest = [] := by
  cases ends with
  | missing => rfl
  | @taken token _ newline =>
      obtain ⟨front, whole⟩ := suffix
      rcases List.eq_nil_or_concat rest with rfl | ⟨left, final, rfl⟩
      · rfl
      · rw [List.concat_eq_append, ← List.cons_append, ← List.append_assoc]
          at whole
        obtain ⟨rfl, _⟩ := List.append_inj' whole rfl
        exact absurd newline (onLine token (by simp))

/-- The line of a row is parsed to a row. Its cells are those that were written
exactly when none of them leaves a styling delimiter open, and just then no cell
holds a bar. -/
theorem parse_rowSource (areCells : ∀ cell ∈ cells, IsCellText cell) :
    ∃ parts,
      parse (rowSource cells) =
          .node .root [.node .paragraph [.node .table [.node .tableRow parts]]] ∧
        ((cellsOf parts).map textOf = cells ↔ leavesOpen cells = false) ∧
        (AreBarless (cellsOf parts) ↔ leavesOpen cells = false) := by
  have isBar : barToken.kind = .pipe := rfl
  have row := Line.row_tableRow isBar (lex (barred cells))
  generalize (Line.tableRow barToken (lex (barred cells))).value = element at row
  generalize (Line.tableRow barToken (lex (barred cells))).rest = rest at row
  have whole := row
  cases row with
  | @row _ parts _ ending _ _ _ derives ends =>
      obtain ⟨line, isLine, onLine⟩ := exists_line areCells
      obtain rfl := eq_nil_of_ending ends (isLine ▸ derives.suffix) onLine
      have block := Line.Block.table whole (.done rfl)
      refine ⟨.ofDelimiter barToken :: parts ++ ending, ?_, ?_⟩
      · rw [parse, lex_rowSource, parseTokens_of_block rfl block]
      · have bare : cellsOf (.ofDelimiter barToken :: parts ++ ending) =
            cellsOf parts := by
          cases ends <;> simp [cellsOf, Element.ofDelimiter, Element.ofToken]
        rw [bare]
        exact cells_iff derives areCells

/-- The cells of two negative numbers are not kept apart. -/
theorem parse_rowSource_negative :
    ∃ parts,
      parse "| -5 | -6 |\n" =
          .node .root [.node .paragraph [.node .table [.node .tableRow parts]]] ∧
        (cellsOf parts).map textOf ≠ [" -5 ", " -6 "] ∧
        ¬ AreBarless (cellsOf parts) := by
  have areCells : ∀ cell ∈ [" -5 ", " -6 "], IsCellText cell := by
    decide +kernel
  have isOpen : leavesOpen [" -5 ", " -6 "] = true := by decide +kernel
  obtain ⟨parts, whole, texts, barless⟩ := parse_rowSource areCells
  rw [isOpen] at texts barless
  exact ⟨parts, whole, fun same => Bool.noConfusion (texts.mp same),
    fun holds => Bool.noConfusion (barless.mp holds)⟩

end Markup
end NotePress
