import NotePress.Proofs.Markup.CursorLines

/-!
# Trees written by a cursor

The rules for paragraphs and whole sources as steps of a cursor. A paragraph is read
line after line, up to the first place behind a line where the input ends or a blank
line comes; and what is written for a whole source is its tree (`replay_root`).
-/

namespace NotePress
namespace Markup
/-- The lexer makes no token of the kind that is found behind the last one. -/
theorem Token.IsLexed.ne_endOfInput
    {token : Token}
    (lexed : token.IsLexed) :
    token.kind ≠ .endOfInput := by
  intro isEnd
  have kinds := lexed.cases_of_isLexed
  rw [isEnd] at kinds
  rcases kinds with ⟨other, _⟩ | ⟨other, _⟩ | ⟨character, found, _⟩ | other
  · cases other
  · cases other
  · unfold Lexer.punctuation? at found
    split at found <;> cases found
  · exact absurd other (by decide)

namespace Line.Ending

theorem atLineEnd (ending : Ending tokens elements rest) :
    atLineEnd tokens = true := by
  cases ending with
  | taken newline => exact beq_iff_eq.mpr newline
  | missing => rfl

/-- A line ending at the start of a line is a blank line. -/
theorem layout
    (ending : Ending tokens elements rest)
    (layout : Parse.Layout rest others) :
    Parse.Layout tokens (elements ++ others) := by
  cases ending with
  | taken newline =>
      exact .blank (by simp [Parse.atBlankLine, newline]) layout
  | missing => exact layout

end Line.Ending

namespace Cursor

/-! ## Paragraphs -/

/-- Whether a paragraph is over. -/
def paragraphEnds (cursor : Cursor) : Bool :=
  cursor.atEnd || cursor.atBlankLine

/-- Reading lines until the first place behind one where the paragraph is over: the
tokens of each line, and where the cursor stands then. -/
inductive ReadsLines : Cursor → List (List Token) → Cursor → Prop
  | last :
      cursor.line = some next →
      Passes cursor next taken elements →
      WholeLines taken next.rest →
      next.paragraphEnds = true →
      ReadsLines cursor [taken] next
  | next :
      cursor.line = some middle →
      Passes cursor middle taken elements →
      WholeLines taken middle.rest →
      middle.paragraphEnds = false →
      ReadsLines middle lines next →
      ReadsLines cursor (taken :: lines) next

/-- What the lines of a paragraph are. -/
structure IsParagraph
    (cursor : Cursor)
    (taken : List Token)
    (elements : List Element)
    (next : Cursor) : Prop where
  nonempty : taken ≠ []
  ends : WholeLines taken next.rest
  stopped : next.paragraphEnds = true
  reads : ∃ lines, ReadsLines cursor lines next ∧ taken = lines.flatten
  lines : next.WithoutEnd → Parse.IsFresh cursor.previous →
    Parse.Lines cursor.rest elements next.rest

section

variable {cursor : Cursor} {token : Token} {others : List Token}

/-- Behind a line another may begin, unless the input ends there. -/
theorem isFresh_of_wholeLines
    {next : Cursor}
    (passes : Passes cursor next taken elements)
    (ends : WholeLines taken next.rest)
    (withoutEnd : next.WithoutEnd) :
    Parse.IsFresh next.previous ∨ next.rest = [] := by
  rcases ends with inputEnds | ⟨inside, ending, rfl, newline⟩
  · exact .inr (withoutEnd.eq_nil inputEnds)
  · rw [passes.previous List.getLast?_concat, newline]
    exact .inl fun _ => rfl

theorem atBlankLine_eq
    (next : cursor.rest = token :: others)
    (withoutEnd : cursor.WithoutEnd) :
    cursor.atBlankLine = Parse.atBlankLine (token :: others) := by
  rw [atBlankLine, isAt_of_cons next, isAt_of_cons next, endsLine_one next,
    Parse.atBlankLine]
  cases others with
  | nil => rfl
  | cons first others =>
      have notEnd : (first.kind == .endOfInput) = false :=
        beq_eq_false_iff_ne.mpr (withoutEnd.ne_of_mem (by simp [next]))
      rw [inputEnds, notEnd, Bool.or_false]

theorem paragraphEnds_eq (withoutEnd : cursor.WithoutEnd) :
    cursor.paragraphEnds = !Line.atVisible cursor.rest := by
  cases next : cursor.rest with
  | nil => rw [paragraphEnds, atEnd_iff.mpr next]; rfl
  | cons token others =>
      rw [paragraphEnds, atEnd_of_cons next, atBlankLine_eq next withoutEnd]
      simp [Line.atVisible]

theorem visible_of_paragraphEnds
    (goesOn : cursor.paragraphEnds = false) :
    ∃ token others, cursor.rest = token :: others ∧ token.kind ≠ .newline := by
  rw [paragraphEnds, Bool.or_eq_false_iff] at goesOn
  cases next : cursor.rest with
  | nil => simp [atEnd_iff.mpr next] at goesOn
  | cons token others =>
      refine ⟨token, others, rfl, fun newline => ?_⟩
      simp [atBlankLine, isAt_of_cons next, newline] at goesOn

theorem yields_paragraphLines
    (next : cursor.rest = token :: others)
    (visible : token.kind ≠ .newline) :
    Yields cursor cursor.paragraphLines (IsParagraph cursor) := by
  induction size : cursor.rest.length using Nat.strong_induction_on
    generalizing cursor token others with
  | _ bound inductionHypothesis =>
  rw [paragraphLines]
  obtain ⟨middle, front, first, read, passes, block⟩ := yields_line next visible
  rw [read, Option.bind_eq_bind, Option.bind_some, ← paragraphEnds]
  refine .after passes ?_
  split
  · rename_i stopped
    refine .of_passes (.refl middle) ?_
    rw [List.append_nil, List.append_nil]
    refine ⟨block.nonempty, block.ends, stopped,
      ⟨[front], .last read passes block.ends stopped, by simp⟩,
      fun withoutEnd fresh => .last (block.block withoutEnd fresh) ?_⟩
    simpa [paragraphEnds_eq withoutEnd] using stopped
  · rename_i goesOn
    rw [Bool.not_eq_true] at goesOn
    obtain ⟨further, left, ahead, visible⟩ := visible_of_paragraphEnds goesOn
    have shorter := passes.shorter block.nonempty
    refine (inductionHypothesis _ (size ▸ shorter) ahead visible rfl).mono
      fun {taken more last} afterwards paragraph => ?_
    refine ⟨by simp [block.nonempty], paragraph.ends.append _,
      paragraph.stopped, ?_, fun withoutEnd fresh => ?_⟩
    · obtain ⟨lines, reads, rfl⟩ := paragraph.reads
      exact ⟨front :: lines, .next read passes block.ends goesOn reads, rfl⟩
    · have middleWithoutEnd := withoutEnd.of_passes afterwards
      have freshAgain :=
        (isFresh_of_wholeLines passes block.ends middleWithoutEnd).resolve_right
          (by simp [ahead])
      refine .next (block.block middleWithoutEnd fresh) ?_
        (paragraph.lines withoutEnd freshAgain)
      simpa [paragraphEnds_eq middleWithoutEnd] using goesOn

/-- A paragraph comes to an end behind its lines. -/
theorem yields_paragraph
    (next : cursor.rest = token :: others)
    (visible : token.kind ≠ .newline) :
    Yields cursor cursor.paragraph fun taken elements next =>
      taken ≠ [] ∧ WholeLines taken next.rest ∧ next.paragraphEnds = true ∧
      (∃ lines inside, ReadsLines cursor.openNode.2 lines inside ∧
        taken = lines.flatten) ∧
      (next.WithoutEnd → Parse.IsFresh cursor.previous →
        ∃ children, elements = [.node .paragraph children] ∧
          Parse.Lines cursor.rest children next.rest) :=
  (yields_paragraphLines (show cursor.openNode.2.rest = _ from next)
    visible).around
    .paragraph fun {_ children inside} _ _ paragraph => by
      obtain ⟨lines, reads, whole⟩ := paragraph.reads
      exact ⟨paragraph.nonempty, paragraph.ends, paragraph.stopped,
        ⟨lines, inside, reads, whole⟩, fun withoutEnd fresh =>
          ⟨children, rfl, paragraph.lines withoutEnd fresh⟩⟩

/-! ## Whole sources -/

/-- What the sections of a source from some place on are. -/
structure AreSections
    (cursor : Cursor)
    (elements : List Element)
    (next : Cursor) : Prop where
  whole : next.rest = []
  layout : next.WithoutEnd →
    Parse.IsFresh cursor.previous ∨ cursor.rest = [] →
    Parse.Layout cursor.rest elements

/-- What a blank line is: tokens in front of which the sections go on. -/
structure IsBlankLine
    (cursor : Cursor)
    (taken : List Token)
    (elements : List Element)
    (next : Cursor) : Prop where
  nonempty : taken ≠ []
  fresh : next.WithoutEnd → Parse.IsFresh next.previous ∨ next.rest = []
  layout : next.WithoutEnd → ∀ {others},
    Parse.Layout next.rest others → Parse.Layout cursor.rest (elements ++ others)

theorem isFresh_of_ending
    {next : Cursor}
    (front : List Token)
    (passes : Passes cursor next (front ++ taken) elements)
    (ending : IsEnding middle taken children next)
    (withoutEnd : next.WithoutEnd) :
    Parse.IsFresh next.previous ∨ next.rest = [] :=
  isFresh_of_wholeLines passes
    ((ending.stops (List.forall_mem_nil _)).wholeLines.append front) withoutEnd

theorem yields_blankLine (blank : cursor.atBlankLine = true) :
    Yields cursor (some cursor.blankLine) (IsBlankLine cursor) := by
  have nonempty : cursor.rest ≠ [] := by
    intro nothing
    simp [atBlankLine, isAt, current_of_nil nothing] at blank
  obtain ⟨token, others, next⟩ := List.exists_cons_of_ne_nil nonempty
  by_cases newline : token.kind = .newline
  · have ended : Line.atLineEnd cursor.rest = true := by
      rw [next]
      exact beq_iff_eq.mpr newline
    have notBlank : cursor.isAt .whitespace = false := by
      rw [isAt_of_cons next, newline]
      rfl
    rw [blankLine, eat_of_not_isAt notBlank]
    refine (yields_ending (.inl ended)).mono fun passes ending => ⟨?_,
      isFresh_of_ending [] passes ending, fun withoutEnd =>
        (ending.ending withoutEnd).layout⟩
    rintro rfl
    exact nonempty (passes.rest.trans (ending.ended ended rfl))
  · rw [atBlankLine, isAt_of_cons next, isAt_of_cons next,
      beq_eq_false_iff_ne.mpr newline, Bool.false_or, Bool.and_eq_true,
      beq_iff_eq, endsLine_one next, Bool.or_eq_true] at blank
    have first := passes_bump next
    have ahead := first.rest_of_single next
    rw [blankLine, eat_of_cons next blank.1]
    refine .after first ((yields_ending (by rw [ahead]; exact blank.2)).mono
      fun passes ending => ⟨by simp,
        isFresh_of_ending [token] (first.trans passes) ending,
        fun withoutEnd _ layout => ?_⟩)
    have isEnding := ending.ending withoutEnd
    rw [ahead] at isEnding
    rw [next, List.append_assoc]
    refine .blank ?_ (isEnding.layout layout)
    rw [Parse.atBlankLine, blank.1, isEnding.atLineEnd]
    rfl

theorem yields_sections (cursor : Cursor) :
    Yields cursor cursor.sections fun _ elements next =>
      AreSections cursor elements next := by
  induction size : cursor.rest.length using Nat.strong_induction_on
    generalizing cursor with
  | _ bound inductionHypothesis =>
  rw [sections]
  split
  · rename_i ended
    rw [atEnd_iff] at ended
    refine .of_passes (.refl cursor) ⟨ended, fun _ _ => ?_⟩
    rw [ended]
    exact .nil
  rename_i goesOn
  split
  · rename_i blank
    obtain ⟨middle, front, first, read, passes, isBlank⟩ := yields_blankLine blank
    obtain rfl := Option.some.inj read
    have shorter := passes.shorter isBlank.nonempty
    refine .after passes ((inductionHypothesis _ (size ▸ shorter) _ rfl).mono
      fun further others => ⟨others.whole, fun withoutEnd _ => ?_⟩)
    have middleWithoutEnd := withoutEnd.of_passes further
    exact isBlank.layout middleWithoutEnd
      (others.layout withoutEnd (isBlank.fresh middleWithoutEnd))
  · rename_i notBlank
    have starts : cursor.paragraphEnds = false := by
      simp [paragraphEnds, goesOn, notBlank]
    obtain ⟨token, others, next, visible⟩ := visible_of_paragraphEnds starts
    refine (yields_paragraph next visible).bind
      fun {front _ middle} passes holds => ?_
    obtain ⟨nonempty, ends, _, _, lines⟩ := holds
    have shorter := passes.shorter nonempty
    refine (inductionHypothesis _ (size ▸ shorter) _ rfl).mono
      fun further others => ⟨others.whole, fun withoutEnd fresh => ?_⟩
    have middleWithoutEnd := withoutEnd.of_passes further
    obtain ⟨children, rfl, isParagraph⟩ :=
      lines middleWithoutEnd (fresh.resolve_right (by simp [next]))
    refine .paragraph ?_ isParagraph (others.layout withoutEnd
      (isFresh_of_wholeLines passes ends middleWithoutEnd))
    simpa [paragraphEnds_eq (middleWithoutEnd.of_passes passes)] using starts

end

/-- What a cursor writes for a whole source is its tree. -/
theorem replay_root
    {tokens : List Token}
    (withoutEnd : ∀ token ∈ tokens, token.kind ≠ .endOfInput) :
    ∃ last, (ofTokens tokens).root = some last ∧
      Event.replay? tokens last.events = some (parseTokens tokens) := by
  have rooted : Yields (ofTokens tokens) (ofTokens tokens).root
      fun _ elements next => ∃ children, elements = [.node .root children] ∧
        AreSections (ofTokens tokens) children next :=
    (yields_sections _).around .root fun _ _ sections =>
      ⟨_, rfl, sections.whole, sections.layout⟩
  obtain ⟨last, taken, _, read, passes, children, rfl, sections⟩ := rooted
  obtain ⟨block, written, builds⟩ := passes.written
  have lastWithoutEnd : last.WithoutEnd := by
    rw [WithoutEnd, passes.sameTokens]
    exact withoutEnd
  have layout := sections.layout lastWithoutEnd (.inl fun _ => rfl)
  have whole : tokens = taken := by
    rw [← List.append_nil taken, ← sections.whole]
    exact passes.rest
  obtain rfl := whole
  have tree : parseTokens tokens = .node .root children :=
    congrArg (Element.node .root) layout.eq_sections
  refine ⟨last, read, ?_⟩
  rw [tree, written]
  exact builds.replay

/-! ## Where rules stop -/

/-- A rule comes to an end: the cursor gets behind some tokens and writes a block of
events that takes these and no others, and something holds of the tokens and of where
the cursor stands then. -/
def Advances
    (cursor : Cursor)
    (result : Option Cursor)
    (property : List Token → Cursor → Prop) : Prop :=
  ∃ next taken block,
    result = some next ∧
    next.tokens = cursor.tokens ∧
    next.position = cursor.position + taken.length ∧
    cursor.rest = taken ++ next.rest ∧
    next.events = cursor.events ++ block ∧
    Event.Balanced block ∧
    Event.tokensTaken block = taken.length ∧
    property taken next

theorem Yields.advances
    {cursor : Cursor}
    (yields : Yields cursor result property)
    {holds : List Token → Cursor → Prop}
    (implies : ∀ {taken elements next},
      property taken elements next → holds taken next) :
    Advances cursor result holds := by
  obtain ⟨next, taken, elements, read, passes, isProperty⟩ := yields
  obtain ⟨block, written, builds⟩ := passes.written
  exact ⟨next, taken, block, read, passes.sameTokens, passes.position,
    passes.rest, written, builds.balanced, builds.tokensTaken,
    implies isProperty⟩

/-- From any place but the end of the input and a line ending, the rules for an
element, a table row and a paragraph come to an end, behind one token or more. The
element is on the line. The row ends right behind its line ending, which may be missing
where the input ends. The paragraph takes in line after line, up to the first place
behind one where the input ends or a blank line comes.

From any place at all, the elements up to the end of the line stop there, and those of
a table cell before a pipe or there. A cursor that reads a whole source by these rules
writes the tree of the source. -/
theorem stays_on_line (cursor : Cursor) :
    (cursor.atEnd = false → cursor.isAt .newline = false →
      Advances cursor cursor.inlineElement (fun taken _ =>
        taken ≠ [] ∧ OnLine taken) ∧
      Advances cursor cursor.tableRow (fun taken next =>
        taken ≠ [] ∧ RestOfLine taken next.rest) ∧
      Advances cursor cursor.paragraph fun taken next =>
        taken ≠ [] ∧ WholeLines taken next.rest ∧ next.paragraphEnds = true ∧
        ∃ lines inside, ReadsLines cursor.openNode.2 lines inside ∧
          taken = lines.flatten) ∧
    Advances cursor cursor.inlineUntilNewline (fun taken next =>
      OnLine taken ∧ (next.atEnd || next.isAt .newline) = true) ∧
    Advances cursor cursor.tableCell (fun taken next =>
      OnLine taken ∧
        (next.atEnd || next.isAt .newline || next.isAt .pipe) = true) ∧
    ∀ source, ∃ last, (ofTokens (lex source)).root = some last ∧
      Event.replay? (lex source) last.events = some (parse source) := by
  refine ⟨fun goesOn visible => ?_, ?_, ?_, fun source => ?_⟩
  · cases next : cursor.rest with
    | nil => simp [atEnd_iff.mpr next] at goesOn
    | cons token others =>
        rw [isAt_of_cons next, beq_eq_false_iff_ne] at visible
        refine ⟨?_, ?_, ?_⟩
        · exact (yields_inlineElement next visible).advances
            fun element => ⟨element.nonempty, element.onLine⟩
        · exact (yields_tableRow next visible).advances
            fun row => ⟨row.nonempty, row.stops⟩
        · exact (yields_paragraph next visible).advances
            fun ⟨nonempty, ends, stopped, reads, _⟩ =>
              ⟨nonempty, ends, stopped, reads⟩
  · refine (yields_inlineUntil (fun _ => false) cursor).advances
      fun run => ⟨run.onLine, ?_⟩
    rw [atLineEnd_eq]
    exact Line.atLineEnd_of_stopsAt run.stopped
  · refine (yields_tableCell cursor).advances
      fun ⟨_, _, run⟩ => ⟨run.onLine, ?_⟩
    exact (stops_eq _ (· == .pipe)).trans run.stopped
  · exact replay_root fun token member =>
      (allLexed_lex source token member).ne_endOfInput

/-- A table row of one cell, with a line of text behind it. -/
theorem stays_on_line_at_row :
    let cursor := ofTokens
      [⟨.pipe, "|"⟩, ⟨.text, "a"⟩, ⟨.newline, "\n"⟩, ⟨.text, "b"⟩]
    cursor.atEnd = false ∧ cursor.isAt .newline = false ∧
      Advances cursor cursor.inlineElement (fun taken _ =>
        taken ≠ [] ∧ OnLine taken) ∧
      Advances cursor cursor.tableRow (fun taken next =>
        taken ≠ [] ∧ RestOfLine taken next.rest) ∧
      Advances cursor cursor.paragraph fun taken next =>
        taken ≠ [] ∧ WholeLines taken next.rest ∧ next.paragraphEnds = true ∧
        ∃ lines inside, ReadsLines cursor.openNode.2 lines inside ∧
          taken = lines.flatten :=
  ⟨rfl, rfl, (stays_on_line _).1 rfl rfl⟩

end Cursor
end Markup
end NotePress
