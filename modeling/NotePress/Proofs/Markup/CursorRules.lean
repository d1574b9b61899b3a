import NotePress.Proofs.Markup.CursorSteps
import NotePress.Proofs.Markup.Layout
import NotePress.Proofs.Markup.Members

/-!
# What the rules for elements do

From any place that is not at the end of a line, the rule for an element comes to
an end, passes tokens of that line and at least one, and writes a block for them
(`yields_inlineElement`). What it writes is what the grammar derives from the
tokens, as long as no token has the kind that a look past the last one finds.
-/

namespace NotePress
namespace Markup

namespace OnLine

theorem single (visible : token.kind ≠ .newline) : OnLine [token] :=
  List.forall_mem_singleton.mpr visible

theorem append
    (front : OnLine taken)
    (back : OnLine more) :
    OnLine (taken ++ more) :=
  List.forall_mem_append.mpr ⟨front, back⟩

end OnLine

/-- Elements that stop at no mark have come to the end of the line. -/
theorem Line.atLineEnd_of_stopsAt_of_startsWith
    (stopped : Inline.stopsAt (· == mark) tokens = true)
    (other : startsWith mark tokens = false) :
    atLineEnd tokens = true := by
  cases tokens with
  | nil => rfl
  | cons ending after =>
      rw [startsWith] at other
      simpa [Inline.stopsAt, other, atLineEnd] using stopped

namespace Cursor

/-- No token has the kind that is found behind the last one. The lexer makes none
that has it. -/
def WithoutEnd (cursor : Cursor) : Prop :=
  ∀ token ∈ cursor.tokens, token.kind ≠ .endOfInput

section

variable {cursor : Cursor} {token : Token} {others : List Token}

/-- A cursor keeps its tokens, so it had the same ones before it passed some. -/
theorem WithoutEnd.of_passes
    {next : Cursor}
    (withoutEnd : next.WithoutEnd)
    (passes : Passes cursor next taken elements) :
    cursor.WithoutEnd := by
  rwa [WithoutEnd, passes.sameTokens] at withoutEnd

/-- No token ahead has the kind of the end of the input. -/
theorem WithoutEnd.ne_of_mem
    (withoutEnd : cursor.WithoutEnd)
    (isAhead : token ∈ cursor.rest) :
    token.kind ≠ .endOfInput :=
  withoutEnd token (List.drop_subset _ _ isAhead)

/-! ## Looking for a delimiter -/

/-- A delimiter that is found ahead is the one that ends the span. -/
theorem split_of_distance
    (found : distance? mark others = some distance) :
    ∃ inside closing after,
      Inline.splitAtClosing mark others = some (inside, closing, after) ∧
      distance = inside.length + 1 := by
  induction others generalizing distance with
  | nil => cases found
  | cons first others inductionHypothesis =>
      rw [distance?] at found
      split at found
      · cases found
      rename_i goesOn
      rw [Inline.splitAtClosing, if_neg fun newline => goesOn (.inl newline)]
      split at found
      · rename_i isMark
        cases found
        exact ⟨[], first, others, if_pos isMark, rfl⟩
      · rename_i other
        obtain ⟨fewer, later, rfl⟩ := Option.map_eq_some_iff.mp found
        obtain ⟨inside, closing, after, divided, rfl⟩ :=
          inductionHypothesis later
        exact ⟨first :: inside, closing, after,
          by rw [if_neg other, divided]; rfl, rfl⟩

/-- A delimiter that no look ahead finds is not on the rest of the line. -/
theorem split_of_no_distance
    (withoutEnd : ∀ token ∈ others, token.kind ≠ .endOfInput)
    (missing : distance? mark others = none) :
    Inline.splitAtClosing mark others = none := by
  induction others with
  | nil => rfl
  | cons first others inductionHypothesis =>
      obtain ⟨notEnd, later⟩ := List.forall_mem_cons.mp withoutEnd
      rw [Inline.splitAtClosing]
      rw [distance?] at missing
      split
      · rfl
      rename_i visible
      rw [if_neg (not_or.mpr ⟨visible, notEnd⟩)] at missing
      split at missing
      · cases missing
      rename_i other
      rw [if_neg other,
        inductionHypothesis later (Option.map_eq_none_iff.mp missing),
        Option.map_none]

/-! ## Raw spans -/

/-- What the rules for elements other than styled spans make of a token and those
after it. -/
structure IsAtom
    (token : Token)
    (others taken : List Token)
    (elements : List Element)
    (next : Cursor) : Prop where
  nonempty : taken ≠ []
  onLine : OnLine taken
  atom : next.WithoutEnd →
    ∃ element, elements = [element] ∧
      Inline.Atom token others element next.previous next.rest

/-- What is passed as one element of a line is an atom when the grammar derives the
element. -/
theorem IsAtom.of_passes
    {next : Cursor}
    (passes : Passes cursor next taken [element])
    (final : Token)
    (isLast : taken.getLast? = some final)
    (ahead : cursor.rest = taken ++ left)
    (onLine : OnLine taken)
    (atom : next.WithoutEnd →
      Inline.Atom token others element final.kind left) :
    IsAtom token others taken [element] next := by
  refine ⟨?_, onLine, fun withoutEnd => ⟨element, rfl, ?_⟩⟩
  · rintro rfl
    cases isLast
  · rw [passes.previous isLast, passes.rest_eq ahead]
    exact atom withoutEnd

/-- A token that is read as it is. -/
theorem yields_bump
    (next : cursor.rest = token :: others)
    (visible : token.kind ≠ .newline)
    (atom : cursor.WithoutEnd →
      Inline.Atom token others (.ofToken token) token.kind others) :
    Yields cursor (some cursor.bump) (IsAtom token others) :=
  have passes := passes_bump next
  .of_passes passes (.of_passes passes token rfl next (.single visible)
    fun withoutEnd => atom (withoutEnd.of_passes passes))

/-- A raw span passes its content and its delimiters, or its first delimiter alone. -/
theorem yields_rawSpan
    (next : cursor.rest = token :: others)
    (isRaw : Inline.IsRaw token.kind kind) :
    Yields cursor (cursor.rawSpan kind) (IsAtom token others) := by
  have visible : token.kind ≠ .newline := by
    intro newline
    rw [newline] at isRaw
    cases isRaw
  have looks : cursor.closing? token.kind = distance? token.kind others := by
    rw [closing?, next, List.tail_cons]
  rw [rawSpan, current_of_cons next, looks]
  cases found : distance? token.kind others with
  | none =>
      refine yields_bump next visible fun withoutEnd => .unmatched isRaw
        (split_of_no_distance (fun other isAhead => ?_) found)
      exact withoutEnd.ne_of_mem (next ▸ List.mem_cons_of_mem token isAhead)
  | some distance =>
      obtain ⟨inside, closing, after, divided, rfl⟩ := split_of_distance found
      obtain rfl := Inline.splitAtClosing_append divided
      have first := passes_opening next .delimiter
      have between := passes_bumpEach id inside (first.rest_eq next)
      have last := passes_bumpAs (between.rest_eq (first.rest_eq next))
        .delimiter
      have isMark := Inline.kind_of_splitAtClosing divided
      refine .of_node (first.trans (between.trans last)) rfl kind fun passes =>
        .of_passes passes closing ?_ (by simpa using next) ?_ fun _ => ?_
      · rw [← List.append_assoc, List.getLast?_concat]
      · exact (OnLine.single visible).append
          ((Inline.onLine_of_splitAtClosing divided).append
            (.single (isMark ▸ visible)))
      · exact .span isRaw divided

/-! ## Boxes -/

/-- A checkbox starts where a tick and a bracket come next. -/
theorem startsCheckbox_iff (next : cursor.rest = token :: others) :
    cursor.startsCheckbox = true ↔
      ∃ tick closing after, others = tick :: closing :: after ∧
        Inline.isTick tick = true ∧ closing.kind = .rightBracket := by
  rw [startsCheckbox, nth_eq, nthText_eq, nth_eq, next]
  match others with
  | [] => simp [Inline.isTick]
  | [tick] => simp
  | tick :: closing :: after => simp

/-- A text box starts where underscores and a bracket come next. -/
theorem startsTextbox_iff (next : cursor.rest = token :: others) :
    cursor.startsTextbox = true ↔
      ∃ blanks closing after, others = blanks ++ closing :: after ∧
        cursor.underscores = blanks.length ∧ blanks ≠ [] ∧
        (∀ blank ∈ blanks, blank.kind = .underscore) ∧
        closing.kind = .rightBracket := by
  have count : cursor.underscores =
      (others.takeWhile (·.kind == .underscore)).length := by
    rw [underscores, next, List.tail_cons]
  rw [startsTextbox, nth_eq, next, Nat.add_comm, List.getElem?_cons_succ,
    Bool.and_eq_true, decide_eq_true_eq, beq_iff_eq]
  constructor
  · rintro ⟨positive, isClosing⟩
    have whole := List.takeWhile_append_dropWhile (p := (·.kind == .underscore))
      (l := others)
    have ahead : others[cursor.underscores]? =
        (others.dropWhile (·.kind == .underscore))[0]? := by
      conv_lhs => rw [← whole, count]
      rw [List.getElem?_append_right (Nat.le_refl _), Nat.sub_self]
    rw [ahead] at isClosing
    cases remains : others.dropWhile (·.kind == .underscore) with
    | nil => simp [remains] at isClosing
    | cons closing after =>
        rw [remains] at whole isClosing
        refine ⟨_, closing, after, whole.symm, count, ?_, ?_, isClosing⟩
        · rw [← List.length_pos_iff, ← count]
          exact positive
        · intro blank member
          simpa using List.mem_takeWhile_imp member
  · rintro ⟨blanks, closing, after, rfl, same, nonempty, _, isClosing⟩
    rw [same]
    exact ⟨List.length_pos_iff.mpr nonempty, by simpa using isClosing⟩

/-- A checkbox is read as an atom. -/
theorem yields_checkbox
    (next : cursor.rest = token :: others)
    (isBracket : token.kind = .leftBracket)
    (starts : cursor.startsCheckbox = true) :
    Yields cursor cursor.box (IsAtom token others) := by
  obtain ⟨tick, closing, after, rfl, ticked, isClosing⟩ :=
    (startsCheckbox_iff next).mp starts
  have first := passes_opening next .delimiter
  have second := passes_bump (first.rest_of_single next)
  have third := passes_bumpAs
    (second.rest_of_single (first.rest_of_single next))
    .delimiter
  rw [box, if_pos starts]
  refine .of_node (first.trans (second.trans third)) rfl .checkbox
    fun passes => .of_passes passes closing rfl next ?_ fun _ =>
      .checkbox isBracket ticked isClosing
  have tickVisible : tick.kind ≠ .newline := by
    rcases Inline.kind_of_isTick ticked with same | same <;> rw [same] <;> decide
  exact (OnLine.single (by rw [isBracket]; decide)).append
    ((OnLine.single tickVisible).append (.single (by rw [isClosing]; decide)))

/-- A text box is read as an atom. -/
theorem yields_textbox
    (next : cursor.rest = token :: others)
    (isBracket : token.kind = .leftBracket)
    (unticked : cursor.startsCheckbox = false)
    (starts : cursor.startsTextbox = true) :
    Yields cursor cursor.box (IsAtom token others) := by
  obtain ⟨blanks, closing, after, rfl, count, nonempty, isBlank, isClosing⟩ :=
    (startsTextbox_iff next).mp starts
  have first := passes_opening next .delimiter
  have ahead : cursor.rest = [token] ++ ((blanks ++ [closing]) ++ after) := by
    simpa using next
  have further := passes_bumpEach (fun _ => .delimiter) (blanks ++ [closing])
    (first.rest_eq ahead)
  rw [List.length_append, List.length_singleton, ← count, List.map_append]
    at further
  rw [box, if_neg (by simp [unticked]), if_pos starts]
  refine .of_node (first.trans further) rfl .textbox fun passes =>
    .of_passes passes closing ?_ (by simpa using next) ?_ fun _ =>
      .textbox isBracket nonempty isBlank isClosing
  · rw [← List.append_assoc, List.getLast?_concat]
  · have onLine : OnLine blanks := fun part member => by
      rw [isBlank part member]
      decide
    exact (OnLine.single (by rw [isBracket]; decide)).append
      (onLine.append (.single (by rw [isClosing]; decide)))

/-- An opening bracket is read as a box, or by itself. -/
theorem yields_box
    (next : cursor.rest = token :: others)
    (isBracket : token.kind = .leftBracket) :
    Yields cursor cursor.box (IsAtom token others) := by
  by_cases ticked : cursor.startsCheckbox = true
  · exact yields_checkbox next isBracket ticked
  by_cases blank : cursor.startsTextbox = true
  · exact yields_textbox next isBracket (by simpa using ticked) blank
  rw [box, if_neg ticked, if_neg blank]
  refine yields_bump next (by rw [isBracket]; decide) fun _ =>
    .bracket isBracket ?_ ?_
  · refine Option.eq_none_iff_forall_ne_some.mpr fun parsed found => ticked ?_
    obtain ⟨tick, closing, whole, isTick, isClosing, -⟩ :=
      Inline.eq_of_checkbox token others found
    exact (startsCheckbox_iff next).mpr
      ⟨tick, closing, _, whole, isTick, isClosing⟩
  · refine Option.eq_none_iff_forall_ne_some.mpr fun parsed found => blank ?_
    obtain ⟨blanks, closing, whole, nonempty, isBlank, isClosing, -⟩ :=
      Inline.eq_of_textbox token others found
    refine (startsTextbox_iff next).mpr
      ⟨blanks, closing, _, whole, ?_, nonempty, isBlank, isClosing⟩
    rw [underscores, next, List.tail_cons, whole,
      (Inline.takeWhile_underscores isBlank isClosing _).1]

/-! ## Hashtags and mentions -/

/-- The list after a directive name makes a call of it. -/
structure IsList
    (tokens taken : List Token)
    (elements : List Element)
    (next : Cursor) : Prop where
  onLine : OnLine taken
  call : ∃ list final, elements = [list] ∧ taken.getLast? = some final ∧
    ∀ {name : Token}, name.kind = .hashtagName →
      Inline.Atom name tokens (.node .hashtag [.ofToken name, list]) final.kind
        next.rest

/-- A parameter list with its right brace. -/
theorem yields_closedParameters
    {opening closing : Token}
    (next : cursor.rest = opening :: inside ++ closing :: after)
    (isOpening : opening.kind = .leftBrace)
    (within : ∀ part ∈ inside, Inline.isParameter part = true)
    (isClosing : closing.kind = .rightBrace) :
    Yields cursor cursor.parameters
      (IsList (opening :: inside ++ closing :: after)) := by
  have first := passes_opening next .delimiter
  have ahead := first.rest_of_single next
  obtain ⟨middle, read, between⟩ := passes_bumpWhile isParameter id inside within
    ahead (by rintro _ ⟨⟩; rw [isClosing]; rfl)
  have left := between.rest_eq ahead
  have last := passes_bumpAs left .delimiter
  refine .of_node (first.trans (between.trans last)) ?_ .parameters
    fun passes => ⟨?_, _, closing, rfl, ?_, fun isName => ?_⟩
  · rw [read, Option.bind_eq_bind, Option.bind_some,
      if_pos (by rw [isAt_of_cons left, isClosing]; rfl)]
  · exact (OnLine.single (by rw [isOpening]; decide)).append
      ((Inline.onLine_of_isParameter within).append
        (.single (by rw [isClosing]; decide)))
  · rw [← List.append_assoc, List.getLast?_concat]
  · rw [passes.rest_eq (by simpa using next)]
    exact .call isName isOpening within isClosing

/-- A parameter list that ends with its line. -/
theorem yields_openParameters
    {opening : Token}
    (next : cursor.rest = opening :: inside ++ after)
    (isOpening : opening.kind = .leftBrace)
    (within : ∀ part ∈ inside, Inline.isParameter part = true)
    (ended : Line.atLineEnd after = true) :
    Yields cursor cursor.parameters (IsList (opening :: inside ++ after)) := by
  have newline : ∀ ending ∈ after.head?, ending.kind = .newline := by
    rintro ending isNext
    obtain ⟨others, rfl⟩ := List.head?_eq_some_iff.mp isNext
    exact eq_of_beq ended
  have first := passes_opening next .delimiter
  have ahead := first.rest_of_single next
  obtain ⟨middle, read, between⟩ := passes_bumpWhile isParameter id inside within
    ahead (by intro ending isNext; rw [newline ending isNext]; rfl)
  have left := between.rest_eq ahead
  have notClosed : middle.isAt .rightBrace = false := by
    cases after with
    | nil => rw [isAt, current_of_nil left]; rfl
    | cons ending after =>
        rw [isAt_of_cons left, newline ending rfl]
        rfl
  refine .of_node (first.trans between) ?_ .parameters fun passes =>
    ⟨?_, _, inside.getLast?.getD opening, rfl, ?_, fun isName => ?_⟩
  · rw [read, Option.bind_eq_bind, Option.bind_some,
      if_neg (by simp [notClosed])]
  · exact (OnLine.single (by rw [isOpening]; decide)).append
      (Inline.onLine_of_isParameter within)
  · exact List.getLast?_cons
  · rw [passes.rest_eq next]
    exact .openCall isName isOpening within ended

/-- A parameter list is read up to its right brace, or to the end of its line. -/
theorem yields_parameters
    {opening : Token}
    (next : cursor.rest = opening :: others)
    (isOpening : opening.kind = .leftBrace) :
    Yields cursor cursor.parameters (IsList (opening :: others)) := by
  have within : ∀ part ∈ others.takeWhile Inline.isParameter,
      Inline.isParameter part = true := fun part => List.mem_takeWhile_imp
  have whole := List.takeWhile_append_dropWhile (p := Inline.isParameter)
    (l := others)
  generalize others.takeWhile Inline.isParameter = inside at within whole
  cases remains : others.dropWhile Inline.isParameter with
  | nil =>
      rw [remains] at whole
      rw [← whole, ← List.cons_append] at next ⊢
      exact yields_openParameters next isOpening within rfl
  | cons closing after =>
      have stopped := List.head?_dropWhile_not Inline.isParameter others
      rw [remains] at whole stopped
      rw [← whole, ← List.cons_append] at next ⊢
      by_cases isClosing : closing.kind = .rightBrace
      · exact yields_closedParameters next isOpening within isClosing
      · refine yields_openParameters next isOpening within ?_
        simpa [Inline.isParameter, isClosing, Line.atLineEnd] using stopped

/-- A name is read with its parameter list, if there is one. -/
theorem yields_hashtag
    (next : cursor.rest = token :: others)
    (isName : token.kind = .hashtagName) :
    Yields cursor cursor.hashtag (IsAtom token others) := by
  have visible : token.kind ≠ .newline := by
    rw [isName]
    decide
  have first := passes_bump (show cursor.openNode.2.rest = _ from next)
  have ahead := first.rest_of_single next
  by_cases bare : Line.startsWith .leftBrace others = false
  · refine .of_node first (if_neg ?_) .hashtag fun passes => .of_passes passes
      token rfl next (.single visible) fun _ => .tag isName bare
    cases others with
    | nil => rw [isAt, current_of_nil ahead]; decide
    | cons opening others =>
        rw [isAt_of_cons ahead]
        exact Bool.eq_false_iff.mp bare
  · cases others with
    | nil => exact absurd rfl bare
    | cons opening others =>
        have isOpening : opening.kind = .leftBrace := by
          simpa [Line.startsWith] using bare
        obtain ⟨last, taken, _, read, further, onLine, list, final, rfl, isLast,
          call⟩ := yields_parameters ahead isOpening
        refine .of_node (first.trans further) ?_ .hashtag fun passes =>
          .of_passes passes final ?_ (first.trans further).rest
            ((OnLine.single visible).append onLine) fun _ => call isName
        · rw [if_pos (by rw [isAt_of_cons ahead, isOpening]; rfl), read]
        · rw [List.getLast?_append, isLast]
          rfl

/-- A mention is one token. -/
theorem yields_mention
    (next : cursor.rest = token :: others)
    (isMention : token.kind = .mentionName) :
    Yields cursor cursor.mention (IsAtom token others) :=
  .of_node (passes_bump (show cursor.openNode.2.rest = _ from next)) rfl .mention
    fun passes => .of_passes passes token rfl next
      (.single (by rw [isMention]; decide)) fun _ => .mention isMention

/-- Every rule that a token alone selects reads an atom. -/
theorem yields_simple
    (next : cursor.rest = token :: others)
    (visible : token.kind ≠ .newline) :
    Yields cursor cursor.simple (IsAtom token others) := by
  rw [simple, current_of_cons next]
  split
  · rename_i isBacktick
    exact yields_rawSpan next (isBacktick ▸ .literal)
  · rename_i isQuote
    exact yields_rawSpan next (isQuote ▸ .quotation)
  · exact yields_box next ‹_›
  · exact yields_hashtag next ‹_›
  · exact yields_mention next ‹_›
  · exact yields_bump next visible fun _ => .bare (by simp_all [Inline.starters])

/-! ## Styled spans -/

/-- A cursor decides whether a delimiter opens a span as the grammar does. -/
theorem mayOpen_eq
    (next : cursor.rest = token :: others)
    (withoutEnd : cursor.WithoutEnd) :
    cursor.mayOpen = Inline.opens cursor.previous token.kind others := by
  have notEnd : ∀ other ∈ others, other.kind ≠ .endOfInput := fun other ahead =>
    withoutEnd.ne_of_mem (next ▸ List.mem_cons_of_mem token ahead)
  have partner : (distance? token.kind others).isSome =
      (Inline.splitAtClosing token.kind others).isSome := by
    cases found : distance? token.kind others with
    | none => rw [split_of_no_distance notEnd found]; rfl
    | some distance =>
        obtain ⟨inside, closing, after, divided, _⟩ := split_of_distance found
        rw [divided]
        rfl
  have visibly :
      (!(cursor.nth 1 == .whitespace || cursor.endsLine 1)) =
        Inline.startsVisibly others := by
    rw [endsLine, nth_eq, next]
    cases others with
    | nil => rfl
    | cons first others =>
        have here := beq_eq_false_iff_ne.mpr (notEnd first List.mem_cons_self)
        simp [Inline.startsVisibly, here, bne]
  rw [mayOpen, Inline.opens, current_of_cons next, closing?, next,
    List.tail_cons, partner, visibly]

/-- A closing delimiter is read if it comes next. -/
theorem yields_closeDelimiter
    (cursor : Cursor)
    (isMark : mark ≠ .endOfInput) :
    Yields cursor (some (cursor.closeDelimiter mark))
      fun taken elements next =>
        (∃ closing, closing.kind = mark ∧ taken = [closing] ∧
          elements = [.ofDelimiter closing]) ∨
        taken = [] ∧ elements = [] ∧ Line.startsWith mark next.rest = false := by
  unfold closeDelimiter
  cases next : cursor.rest with
  | nil =>
      rw [if_neg (by simpa [isAt, current_of_nil next] using isMark.symm)]
      exact .of_passes (.refl cursor) (.inr ⟨rfl, rfl, by rw [next]; rfl⟩)
  | cons closing after =>
      rw [isAt_of_cons next]
      split
      · rename_i same
        exact .of_passes (passes_bumpAs next .delimiter)
          (.inl ⟨closing, eq_of_beq same, rfl, rfl⟩)
      · rename_i other
        refine .of_passes (.refl cursor) (.inr ⟨rfl, rfl, ?_⟩)
        rw [next]
        exact Bool.eq_false_iff.mpr other

/-- What an element is: some tokens of the line, and what is derived behind them is
derived from here with the element in front. -/
structure IsElement
    (cursor : Cursor)
    (taken : List Token)
    (elements : List Element)
    (next : Cursor) : Prop where
  nonempty : taken ≠ []
  onLine : OnLine taken
  derives : next.WithoutEnd →
    ∀ {stops more last left},
      Inline.stopsAt stops cursor.rest = false →
      Inline.Derives stops next.previous next.rest more last left →
      Inline.Derives stops cursor.previous cursor.rest (elements ++ more) last
        left

/-- What the elements up to some token are. -/
structure IsRun
    (stops : Kind → Bool)
    (cursor : Cursor)
    (taken : List Token)
    (elements : List Element)
    (next : Cursor) : Prop where
  onLine : OnLine taken
  stopped : Inline.stopsAt stops next.rest = true
  derives : next.WithoutEnd →
    Inline.Derives stops cursor.previous cursor.rest elements next.previous
      next.rest

/-- An atom that is no styled span is an element. -/
theorem IsAtom.isElement
    (atom : IsAtom token others taken elements last)
    (next : cursor.rest = token :: others)
    (unstyled : token.kind.style? = none) :
    IsElement cursor taken elements last := by
  refine ⟨atom.nonempty, atom.onLine, fun withoutEnd _ _ _ _ goesOn derives => ?_⟩
  obtain ⟨element, rfl, isAtom⟩ := atom.atom withoutEnd
  rw [next] at goesOn ⊢
  exact .atom goesOn unstyled isAtom derives

/-- A styling delimiter that opens nothing. -/
theorem yields_mark
    (next : cursor.rest = token :: others)
    (isStyle : token.kind.style? = some style)
    (closed : cursor.mayOpen = false) :
    Yields cursor (some cursor.bump) (IsElement cursor) := by
  have passes := passes_bump next
  refine .of_passes passes ⟨List.cons_ne_nil _ _,
    .single (Inline.ne_newline_of_style isStyle),
    fun withoutEnd _ _ _ _ goesOn derives => ?_⟩
  rw [mayOpen_eq next (withoutEnd.of_passes passes)] at closed
  rw [passes.previous rfl, passes.rest_eq next] at derives
  rw [next] at goesOn ⊢
  exact .mark goesOn isStyle closed derives

/-- A styled span, when the elements in it come to an end. -/
theorem yields_styled
    (next : cursor.rest = token :: others)
    (isStyle : token.kind.style? = some style)
    (opens : cursor.mayOpen = true)
    (inner : ∀ {opened : Cursor}, opened.rest = others →
      Yields opened (opened.inlineUntil (· == token.kind))
        (IsRun (· == token.kind) opened)) :
    Yields cursor cursor.inlineElement (IsElement cursor) := by
  have first := passes_opening next .delimiter
  have ahead := first.rest_of_single next
  obtain ⟨inside, content, children, read, within, run⟩ := inner ahead
  have isMark : token.kind ≠ .endOfInput := by
    intro isEnd
    rw [isEnd] at isStyle
    cases isStyle
  obtain ⟨outside, tail, delimiter, same, last, closing⟩ :=
    yields_closeDelimiter inside isMark
  obtain rfl := Option.some.inj same
  obtain ⟨events, closed, whole⟩ :=
    (first.trans (within.trans last)).close style
  rw [inlineElement, current_of_cons next, isStyle]
  simp only [opens, if_true]
  rw [read, Option.bind_eq_bind, Option.bind_some]
  refine ⟨_, _, _, closed, whole, by simp, ?_, ?_⟩
  · have visible := Inline.ne_newline_of_style isStyle
    refine (OnLine.single visible).append (run.onLine.append ?_)
    rcases closing with ⟨closing, isClosing, rfl, -⟩ | ⟨rfl, -⟩
    · exact .single (isClosing ▸ visible)
    · exact List.forall_mem_nil _
  · intro withoutEnd stops more final left goesOn derives
    rw [mayOpen_eq next (withoutEnd.of_passes whole)] at opens
    have lastWithoutEnd : (inside.closeDelimiter token.kind).WithoutEnd :=
      withoutEnd
    have content := run.derives (lastWithoutEnd.of_passes last)
    have stopped := run.stopped
    rw [first.previous_of_single, ahead] at content
    rw [next] at goesOn ⊢
    rw [last.rest] at content stopped
    rcases closing with ⟨closing, isClosing, rfl, rfl⟩ | ⟨rfl, rfl, other⟩
    · rw [whole.previous (by rw [← List.append_assoc, List.getLast?_concat])]
        at derives
      exact .closed goesOn isStyle opens content isClosing derives
    · rw [List.nil_append] at content stopped
      have ended := Line.atLineEnd_of_stopsAt_of_startsWith stopped other
      rw [← last.previous_of_nil] at content
      obtain ⟨rfl, rfl, rfl⟩ :=
        derives.eq_of_stopsAt (Inline.stopsAt_of_atLineEnd stops ended)
      rw [List.append_nil, List.append_nil]
      exact .unclosed goesOn isStyle opens content ended

/-- An element is read, when what stands in a span comes to an end. -/
theorem yields_inlineElement_of
    (next : cursor.rest = token :: others)
    (visible : token.kind ≠ .newline)
    (inner : ∀ {opened : Cursor} {stops}, opened.rest = others →
      Yields opened (opened.inlineUntil stops) (IsRun stops opened)) :
    Yields cursor cursor.inlineElement (IsElement cursor) := by
  cases isStyle : token.kind.style? with
  | none =>
      rw [inlineElement, current_of_cons next, isStyle]
      exact (yields_simple next visible).mono fun _ atom =>
        atom.isElement next isStyle
  | some style =>
      by_cases opens : cursor.mayOpen = true
      · exact yields_styled next isStyle opens inner
      · rw [inlineElement, current_of_cons next, isStyle]
        simp only [opens]
        exact yields_mark next isStyle (by simpa using opens)

/-! ## Elements up to some token -/

/-- A run of elements stops where the grammar stops it. -/
theorem stops_eq
    (cursor : Cursor)
    (stops : Kind → Bool) :
    (cursor.atEnd || cursor.isAt .newline || stops cursor.current) =
      Inline.stopsAt stops cursor.rest := by
  cases next : cursor.rest with
  | nil => simp [atEnd_iff.mpr next, Inline.stopsAt]
  | cons token others =>
      rw [atEnd_of_cons next, isAt_of_cons next, current_of_cons next]
      rfl

/-- Elements up to some token come to an end there. The tokens that are left get
fewer with each element. -/
theorem yields_inlineUntil
    (stops : Kind → Bool)
    (cursor : Cursor) :
    Yields cursor (cursor.inlineUntil stops) (IsRun stops cursor) := by
  induction size : cursor.rest.length using Nat.strong_induction_on
    generalizing cursor stops with
  | _ bound inductionHypothesis =>
  rw [inlineUntil, stops_eq]
  split
  · rename_i stopped
    exact .of_passes (.refl cursor)
      ⟨List.forall_mem_nil _, stopped, fun _ => .done stopped⟩
  · rename_i goesOn
    cases next : cursor.rest with
    | nil => exact absurd (by rw [next]; rfl) goesOn
    | cons token others =>
        have visible : token.kind ≠ .newline := by
          rintro newline
          exact goesOn (by simp [next, Inline.stopsAt, newline])
        have first := yields_inlineElement_of next visible fun ahead =>
          inductionHypothesis _ (by rw [ahead, ← size, next]; simp) _ _ rfl
        refine first.bind fun {front content middle} passes element => ?_
        have shorter := passes.shorter element.nonempty
        refine (inductionHypothesis _ (size ▸ shorter) stops middle rfl).mono
          fun further run => ?_
        refine ⟨element.onLine.append run.onLine, run.stopped,
          fun withoutEnd => ?_⟩
        exact element.derives (withoutEnd.of_passes further)
          (by simpa using goesOn) (run.derives withoutEnd)

/-- The rule for an element comes to an end, behind some tokens of the line. -/
theorem yields_inlineElement
    (next : cursor.rest = token :: others)
    (visible : token.kind ≠ .newline) :
    Yields cursor cursor.inlineElement (IsElement cursor) :=
  yields_inlineElement_of next visible fun _ => yields_inlineUntil _ _

end

end Cursor
end Markup
end NotePress
