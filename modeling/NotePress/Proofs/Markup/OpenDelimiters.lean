import NotePress.Proofs.Markup.Productions

/-!
# Delimiters that a cell leaves open

A styling delimiter of a table cell may find its partner in a later cell, and the
span that it opens then goes on over the bar between them. `leftOpen` goes through
the tokens of a cell with a stack of the delimiters that are open. Where reading
stops in a cell, the stack tells what is open there, and reading passes the bar
after the cell only when some delimiter is left open before it
(`Derives.course`).
-/

namespace NotePress
namespace Markup
namespace Inline

/-! ## Open delimiters -/

/-- The tokens after a textbox, when its underscores and its right bracket come
next. -/
def afterTextbox? (tokens : List Token) : Option (List Token) :=
  match tokens.dropWhile (·.kind == .underscore) with
  | [] => none
  | closing :: after =>
      if Line.startsWith .underscore tokens &&
          closing.kind == .rightBracket then
        some after
      else
        none

/-- A text box is found behind its underscores and its bracket. -/
theorem exists_of_afterTextbox
    (found : afterTextbox? tokens = some after) :
    ∃ blanks closing, tokens = blanks ++ closing :: after ∧ blanks ≠ [] ∧
      (∀ blank ∈ blanks, blank.kind = .underscore) ∧
      closing.kind = .rightBracket := by
  unfold afterTextbox? at found
  split at found
  · cases found
  · rename_i closing others remains
    split at found
    · rename_i boxed
      simp only [Bool.and_eq_true, beq_iff_eq] at boxed
      cases found
      refine ⟨tokens.takeWhile (·.kind == .underscore), closing, ?_, ?_, ?_,
        boxed.2⟩
      · rw [← remains, List.takeWhile_append_dropWhile]
      · cases tokens with
        | nil => cases remains
        | cons first rest =>
            have starts : first.kind = .underscore := eq_of_beq boxed.1
            simp [starts]
      · intro blank member
        simpa using List.mem_takeWhile_imp member
    · cases found

/-- Underscores and a right bracket make a text box. -/
theorem afterTextbox_of_blanks
    (nonempty : blanks ≠ [])
    (isBlank : ∀ blank ∈ blanks, blank.kind = .underscore)
    (isClosing : closing.kind = .rightBracket) :
    afterTextbox? (blanks ++ closing :: after) = some after := by
  obtain ⟨first, others, rfl⟩ := List.exists_cons_of_ne_nil nonempty
  have starts : Line.startsWith .underscore
      (first :: others ++ closing :: after) = true :=
    beq_iff_eq.mpr (isBlank first List.mem_cons_self)
  rw [afterTextbox?, (takeWhile_underscores isBlank isClosing after).2, starts]
  simp [isClosing]

/-- Without an underscore there is no text box. -/
theorem afterTextbox_cons_of_ne
    (apart : first.kind ≠ .underscore)
    (rest : List Token) :
    afterTextbox? (first :: rest) = none := by
  simp [afterTextbox?, Line.startsWith, apart]

/-- The tokens after the textbox that starts with a token, if one does. -/
def boxed?
    (token : Token)
    (rest : List Token) : Option (List Token) :=
  if token.kind = .leftBracket then afterTextbox? rest else none

/-- A text box takes up some of the tokens. -/
theorem length_of_boxed
    (found : boxed? token rest = some after) :
    after.length < rest.length := by
  unfold boxed? at found
  split at found
  · obtain ⟨blanks, closing, rfl, _⟩ := exists_of_afterTextbox found
    rw [List.length_append, List.length_cons]
    omega
  · cases found

/-- The styling delimiters that are open after some tokens, innermost first, given
those open before and the tokens that come later on the line. -/
def leftOpen
    (later : List Token)
    (previous : Kind)
    (stack : List Kind)
    (tokens : List Token) : List Kind :=
  match tokens with
  | [] => stack
  | token :: rest =>
      if stack.head? = some token.kind then
        leftOpen later token.kind stack.tail rest
      else if token.kind.style?.isSome &&
          opens previous token.kind (rest ++ later) then
        leftOpen later token.kind (token.kind :: stack) rest
      else
        match found : boxed? token rest with
        | some after =>
            have := length_of_boxed found
            leftOpen later .rightBracket stack after
        | none => leftOpen later token.kind stack rest
termination_by tokens.length

section

variable {later : List Token} {previous : Kind} {stack : List Kind}

theorem leftOpen_nil : leftOpen later previous stack [] = stack := by
  rw [leftOpen]

/-- The innermost open delimiter is closed by the next one of its kind. -/
theorem leftOpen_closing (isOpen : stack.head? = some token.kind) :
    leftOpen later previous stack (token :: rest) =
      leftOpen later token.kind stack.tail rest := by
  rw [leftOpen, if_pos isOpen]

/-- A delimiter that opens a span is open after it. -/
theorem leftOpen_opening
    (other : stack.head? ≠ some token.kind)
    (isStyle : token.kind.style? = some style)
    (opened : opens previous token.kind (rest ++ later) = true) :
    leftOpen later previous stack (token :: rest) =
      leftOpen later token.kind (token.kind :: stack) rest := by
  rw [leftOpen, if_neg other, if_pos (by simp [isStyle, opened])]

/-- A token that opens nothing. -/
theorem leftOpen_other
    (other : stack.head? ≠ some token.kind)
    (unopened :
      token.kind.style? = none ∨
        opens previous token.kind (rest ++ later) = false)
    (unboxed : boxed? token rest = none) :
    leftOpen later previous stack (token :: rest) =
      leftOpen later token.kind stack rest := by
  have notOpening : ¬ (token.kind.style?.isSome &&
      opens previous token.kind (rest ++ later)) = true := by
    rcases unopened with unstyled | closed
    · simp [unstyled]
    · simp [closed]
  rw [leftOpen, if_neg other, if_neg notOpening]
  split
  · rename_i found
    rw [unboxed] at found
    cases found
  · rfl

/-- A text box leaves open what was open before it. -/
theorem leftOpen_textbox
    (other : stack.head? ≠ some .leftBracket)
    (isBracket : token.kind = .leftBracket)
    (boxed : afterTextbox? rest = some after) :
    leftOpen later previous stack (token :: rest) =
      leftOpen later .rightBracket stack after := by
  have isBoxed : boxed? token rest = some after := by
    rw [boxed?, if_pos isBracket, boxed]
  rw [leftOpen, isBracket, if_neg other, if_neg (by simp [Kind.style?])]
  split
  · rename_i found
    rw [isBoxed] at found
    cases found
    rfl
  · rename_i found
    rw [isBoxed] at found
    cases found

end

/-! ## Cells and open spans -/

/-- The kinds of tokens that end a cell, or start something whose content is not
looked at. -/
def cellBreaks : List Kind :=
  [.newline, .pipe, .backtick, .quote, .leftBrace]

/-- Tokens that stand within a cell. -/
def IsCell (tokens : List Token) : Prop :=
  ∀ token ∈ tokens, token.kind ∉ cellBreaks

theorem IsCell.of_suffix
    (isCell : IsCell tokens)
    (suffix : rest <:+ tokens) :
    IsCell rest :=
  fun token member => isCell token (suffix.subset member)

theorem IsCell.of_cons (isCell : IsCell (token :: tokens)) : IsCell tokens :=
  isCell.of_suffix (List.suffix_cons _ _)

/-- No token of a cell ends it. -/
theorem IsCell.kind_ne
    (isCell : IsCell tokens)
    (breaks : kind ∈ cellBreaks) :
    ∀ token ∈ tokens, token.kind ≠ kind := by
  rintro token member rfl
  exact isCell token member breaks

/-- The bar after a cell is on its line. -/
theorem IsCell.not_atLineEnd
    (isCell : IsCell cell)
    (isBar : bar.kind = .pipe)
    (later : List Token) :
    Line.atLineEnd (cell ++ bar :: later) = false := by
  cases cell with
  | nil => simp [Line.atLineEnd, isBar]
  | cons first cell =>
      exact beq_false_of_ne
        (isCell.kind_ne (by decide) first List.mem_cons_self)

/-- Tokens without a bar that a line starts with stand in its first cell. -/
theorem exists_left
    {cell : List Token}
    (front : List Token)
    (whole : cell ++ bar :: later = front ++ after)
    (apart : ∀ token ∈ front, token.kind ≠ bar.kind) :
    ∃ left, cell = front ++ left ∧ after = left ++ bar :: later := by
  rcases List.append_eq_append_iff.mp whole with
    ⟨between, isFront, isLater⟩ | ⟨left, isCell, isAfter⟩
  · cases between with
    | nil => exact ⟨[], by simpa using isFront.symm, by simpa using isLater.symm⟩
    | cons first others =>
        cases isLater
        exact absurd rfl (apart bar (by simp [isFront]))
  · exact ⟨left, isCell, isAfter⟩

/-- A delimiter in front of the bar of its cell stands in the cell. -/
theorem exists_left_of_isStyle
    {cell : List Token}
    (isStyle : token.kind.style? = some style)
    (isBar : bar.kind = .pipe)
    (whole : cell ++ bar :: later = token :: rest) :
    ∃ left, cell = token :: left ∧ rest = left ++ bar :: later := by
  refine exists_left [token] whole fun mark member same => ?_
  rw [List.mem_singleton.mp member, isBar] at same
  rw [same] at isStyle
  cases isStyle

/-- Delimiters of styles. -/
def AreStyles (stack : List Kind) : Prop :=
  ∀ mark ∈ stack, mark.style?.isSome = true

theorem AreStyles.nil : AreStyles [] :=
  fun _ member => nomatch member

theorem AreStyles.cons
    (styles : AreStyles stack)
    (isStyle : mark.style? = some style) :
    AreStyles (mark :: stack) := by
  intro other member
  rcases List.mem_cons.mp member with rfl | among
  · simp [isStyle]
  · exact styles other among

/-- A token without a style closes no delimiter. -/
theorem AreStyles.ne_head
    (styles : AreStyles stack)
    (unstyled : kind.style? = none) :
    stack.head? ≠ some kind := by
  intro isHead
  have isStyle := styles kind (List.mem_of_head? isHead)
  rw [unstyled] at isStyle
  cases isStyle

/-! ## What atoms leave open -/

/-- A token that is no delimiter and starts no textbox leaves the open delimiters
as they are. -/
theorem leftOpen_bare
    (styles : AreStyles stack)
    (unstyled : token.kind.style? = none)
    (unboxed : boxed? token rest = none) :
    leftOpen later previous stack (token :: rest) =
      leftOpen later token.kind stack rest :=
  leftOpen_other (styles.ne_head unstyled) (.inl unstyled) unboxed

/-- Only a left bracket starts a text box. -/
theorem boxed_of_ne
    (apart : token.kind ≠ .leftBracket)
    (rest : List Token) :
    boxed? token rest = none := by
  rw [boxed?, if_neg apart]

theorem boxed_of_isStyle
    (isStyle : token.kind.style? = some style)
    (rest : List Token) :
    boxed? token rest = none := by
  apply boxed_of_ne
  intro isBracket
  rw [isBracket] at isStyle
  cases isStyle

/-- A checkbox leaves open what was open before it. -/
theorem leftOpen_checkbox
    (styles : AreStyles stack)
    (isBracket : token.kind = .leftBracket)
    (tickKind : tick.kind = .whitespace ∨ tick.kind = .text)
    (isClosing : closing.kind = .rightBracket) :
    leftOpen later previous stack (token :: tick :: closing :: rest) =
      leftOpen later closing.kind stack rest := by
  have bare : tick.kind.style? = none ∧ tick.kind ≠ .underscore ∧
      tick.kind ≠ .leftBracket := by
    rcases tickKind with isKind | isKind <;> rw [isKind] <;> decide
  obtain ⟨unstyled, unblank, unbracket⟩ := bare
  have unboxed : boxed? token (tick :: closing :: rest) = none := by
    rw [boxed?, if_pos isBracket, afterTextbox_cons_of_ne unblank]
  rw [leftOpen_bare styles (isBracket ▸ rfl) unboxed,
    leftOpen_bare styles unstyled (boxed_of_ne unbracket _),
    leftOpen_bare styles (isClosing ▸ rfl)
      (boxed_of_ne (by simp [isClosing]) rest)]

/-- A bracket in front of underscores and a right bracket is read as a text box. -/
theorem textbox_ne_none
    (nonempty : blanks ≠ [])
    (isBlank : ∀ blank ∈ blanks, blank.kind = .underscore)
    (isClosing : closing.kind = .rightBracket) :
    textbox? token (blanks ++ closing :: after) ≠ none := by
  obtain ⟨taken, left⟩ := takeWhile_underscores isBlank isClosing after
  rw [textbox_of_dropWhile token left, taken]
  simp [nonempty, isClosing]

/-- An atom that starts in a cell ends in it. -/
theorem Atom.course
    {cell : List Token}
    (atom : Atom token (cell ++ bar :: later) first between middle)
    (isBar : bar.kind = .pipe)
    (isCell : IsCell (token :: cell))
    (unstyled : token.kind.style? = none)
    (styles : AreStyles stack) :
    ∃ left, left <:+ cell ∧ middle = left ++ bar :: later ∧
      leftOpen (bar :: later) previous stack (token :: cell) =
        leftOpen (bar :: later) between stack left := by
  have plain (unboxed : boxed? token cell = none) :
      ∃ left, left <:+ cell ∧ cell ++ bar :: later = left ++ bar :: later ∧
        leftOpen (bar :: later) previous stack (token :: cell) =
          leftOpen (bar :: later) token.kind stack left :=
    ⟨cell, List.suffix_rfl, rfl, leftOpen_bare styles unstyled unboxed⟩
  have breaks := isCell token List.mem_cons_self
  have noCall {opening : Token} {inside : List Token}
      (whole : cell ++ bar :: later = opening :: inside) :
      opening.kind ≠ .leftBrace := by
    intro isOpening
    obtain ⟨left, rfl, _⟩ := exists_left [opening] whole (by
      simp [isOpening, isBar])
    exact isCell.kind_ne (by decide) opening (by simp) isOpening
  generalize whole : cell ++ bar :: later = rest at atom plain
  cases atom with
  | bare isBare =>
      apply plain (boxed_of_ne _ cell)
      intro isBracket
      rw [isBracket] at isBare
      exact isBare (by decide)
  | unmatched isRaw =>
      generalize token.kind = kind at isRaw breaks
      cases isRaw <;> exact absurd (by decide) breaks
  | span isRaw =>
      generalize token.kind = kind at isRaw breaks
      cases isRaw <;> exact absurd (by decide) breaks
  | bracket isBracket _ unboxed =>
      apply plain
      rw [boxed?, if_pos isBracket]
      cases found : afterTextbox? cell with
      | none => rfl
      | some after =>
          obtain ⟨blanks, closing, rfl, nonempty, isBlank, isClosing⟩ :=
            exists_of_afterTextbox found
          rw [List.append_assoc, List.cons_append] at whole
          subst whole
          exact absurd unboxed (textbox_ne_none nonempty isBlank isClosing)
  | @checkbox tick _ closing after isBracket ticked isClosing =>
      have tickKind := kind_of_isTick ticked
      have apart : ∀ part ∈ [tick, closing], part.kind ≠ bar.kind := by
        rcases tickKind with isKind | isKind <;> simp [isKind, isClosing, isBar]
      obtain ⟨left, rfl, rfl⟩ :=
        exists_left [tick, closing] whole apart
      refine ⟨left, List.suffix_append _ _, rfl, ?_⟩
      rw [List.cons_append, List.singleton_append]
      exact leftOpen_checkbox styles isBracket tickKind isClosing
  | @textbox blanks _ closing after isBracket nonempty isBlank isClosing =>
      have apart : ∀ part ∈ blanks ++ [closing], part.kind ≠ bar.kind := by
        refine List.forall_mem_append.mpr ⟨fun blank among => ?_, ?_⟩
        · rw [isBlank blank among, isBar]
          decide
        · simp [isClosing, isBar]
      obtain ⟨left, rfl, rfl⟩ :=
        exists_left (blanks ++ [closing]) (by simpa using whole) apart
      refine ⟨left, List.suffix_append _ _, rfl, ?_⟩
      rw [List.append_assoc, List.singleton_append, isClosing]
      exact leftOpen_textbox (isBracket ▸ styles.ne_head unstyled) isBracket
        (afterTextbox_of_blanks nonempty isBlank isClosing)
  | tag isName | mention isName =>
      apply plain (boxed_of_ne _ cell)
      rw [isName]
      decide
  | call _ isOpening => exact absurd isOpening (noCall whole)
  | openCall _ isOpening => exact absurd isOpening (noCall whole)

/-! ## Reading a cell -/

/-- What stops the elements of a cell, or of the innermost open span in it. -/
def stopsOf : List Kind → Kind → Bool
  | [] => (· == .pipe)
  | mark :: _ => (· == mark)

/-- What reading the tokens of a cell, and a bar after it, comes to: it stops in
the cell, or at its end, or it passes the bar, and then a delimiter was left
open. -/
inductive Course
    (bar : Token)
    (later : List Token)
    (previous : Kind)
    (stack : List Kind)
    (cell : List Token)
    (content : List Element)
    (last : Kind)
    (rest : List Token) : Prop
  | stops (left : List Token) :
      left <:+ cell →
      rest = left ++ bar :: later →
      leftOpen (bar :: later) previous stack cell =
        leftOpen (bar :: later) last stack left →
      Course bar later previous stack cell content last rest
  | passes :
      rest <:+ later →
      bar ∈ Element.leavesOf content →
      leftOpen (bar :: later) previous stack cell ≠ [] →
      Course bar later previous stack cell content last rest

/-- Elements go on at no token that closes the innermost open span. -/
theorem head_ne_of_goesOn
    (goesOn : stopsAt (stopsOf stack) (token :: rest) = false) :
    stack.head? ≠ some token.kind := by
  cases stack with
  | nil => simp
  | cons mark stack =>
      simp only [stopsAt, stopsOf, Bool.or_eq_false_iff, beq_eq_false_iff_ne]
        at goesOn
      simpa using fun same => goesOn.2 same.symm

/-- Elements of a cell go on at a bar only within a span. -/
theorem ne_nil_of_goesOn
    (goesOn : stopsAt (stopsOf stack) (bar :: rest) = false)
    (isBar : bar.kind = .pipe) :
    stack ≠ [] := by
  rintro rfl
  simp [stopsAt, stopsOf, isBar] at goesOn

/-- A bar within a span is an element of its own. -/
theorem Atom.eq_of_isBar
    (atom : Atom bar rest first last after)
    (isBar : bar.kind = .pipe) :
    first = .ofToken bar ∧ after = rest := by
  cases atom with
  | bare => exact ⟨rfl, rfl⟩
  | unmatched => exact ⟨rfl, rfl⟩
  | bracket => exact ⟨rfl, rfl⟩
  | span isRaw =>
      rw [isBar] at isRaw
      cases isRaw
  | checkbox isKind | textbox isKind | tag isKind | call isKind
    | openCall isKind | mention isKind =>
      rw [isBar] at isKind
      cases isKind

/-- Reading goes on from something that is read in a cell. -/
theorem Course.after
    (course : Course bar later between stack left others last rest)
    (suffix : left <:+ cell)
    (same :
      leftOpen (bar :: later) previous stack cell =
        leftOpen (bar :: later) between stack left)
    (leaves : Element.leavesOf others ⊆ Element.leavesOf content) :
    Course bar later previous stack cell content last rest := by
  cases course with
  | stops remaining isSuffix whole isOpen =>
      exact .stops remaining (isSuffix.trans suffix) whole (same.trans isOpen)
  | passes isSuffix member remainOpen =>
      exact .passes isSuffix (leaves member) (same ▸ remainOpen)

/-- Reading the elements of a cell, or those within a span that is open in it. -/
theorem Derives.course
    {cell : List Token}
    (derives : Derives stops previous tokens content last rest)
    (isBar : bar.kind = .pipe)
    (stack : List Kind)
    (areStops : stops = stopsOf stack)
    (whole : tokens = cell ++ bar :: later)
    (isCell : IsCell cell)
    (styles : AreStyles stack) :
    Course bar later previous stack cell content last rest := by
  -- The content of a span is read with the delimiter of the span on the stack, so
  -- the induction on the derivation goes over all stacks.
  induction derives generalizing stack cell with
  | done =>
      exact .stops cell List.suffix_rfl whole rfl
  | atom goesOn unstyled atom derives inductionHypothesis =>
      subst areStops
      cases cell with
      | nil =>
          obtain ⟨rfl, rfl⟩ := List.cons.inj whole
          obtain ⟨rfl, rfl⟩ := atom.eq_of_isBar isBar
          refine .passes derives.reads.suffix ?_ ?_
          · simp [Element.leavesOf, Element.ofToken, Element.leaves]
          · rw [leftOpen_nil]
            exact ne_nil_of_goesOn goesOn isBar
      | cons first cell =>
          obtain ⟨rfl, rfl⟩ := List.cons.inj whole
          obtain ⟨left, suffix, rfl, same⟩ :=
            atom.course isBar isCell unstyled styles
          have isLeft := isCell.of_suffix (suffix.trans (List.suffix_cons _ _))
          exact (inductionHypothesis stack rfl rfl isLeft styles).after
            (suffix.trans (List.suffix_cons _ _)) same
            (by simp [Element.leavesOf])
  | mark goesOn isStyle unopened derives inductionHypothesis =>
      subst areStops
      obtain ⟨left, rfl, rfl⟩ := exists_left_of_isStyle isStyle isBar whole.symm
      exact (inductionHypothesis stack rfl rfl isCell.of_cons styles).after
        (List.suffix_cons _ _)
        (leftOpen_other (head_ne_of_goesOn goesOn) (.inr unopened)
          (boxed_of_isStyle isStyle left))
        (by simp [Element.leavesOf])
  | @closed _ token _ _ _ _ _ closing _ _ _ _ goesOn isStyle opened inside
      isClosing derives inInside inOthers =>
      subst areStops
      obtain ⟨left, rfl, rfl⟩ := exists_left_of_isStyle isStyle isBar whole.symm
      have opening := leftOpen_opening (head_ne_of_goesOn goesOn) isStyle opened
      have within := inInside (token.kind :: stack) rfl rfl
        isCell.of_cons (styles.cons isStyle)
      cases within with
      | stops remaining isSuffix isRest same =>
          obtain ⟨others, rfl, rfl⟩ :=
            exists_left_of_isStyle (isClosing ▸ isStyle) isBar isRest.symm
          have suffix := (List.suffix_cons _ _).trans isSuffix
          have isOthers := isCell.of_cons.of_suffix suffix
          have closes : (token.kind :: stack).head? = some closing.kind :=
            congrArg some isClosing.symm
          rw [leftOpen_closing closes, List.tail_cons] at same
          exact (inOthers stack rfl rfl isOthers styles).after
            (suffix.trans (List.suffix_cons _ _))
            (opening.trans same) (by simp [Element.leavesOf])
      | passes isSuffix member remainOpen =>
          refine .passes
            ((derives.reads.suffix.trans (List.suffix_cons _ _)).trans isSuffix)
            ?_ (opening ▸ remainOpen)
          simp [Element.leavesOf, Element.leaves, Element.leavesOf_append,
            member]
  | @unclosed _ token _ _ _ _ _ _ goesOn isStyle opened inside ended inInside =>
      subst areStops
      obtain ⟨left, rfl, rfl⟩ := exists_left_of_isStyle isStyle isBar whole.symm
      have opening := leftOpen_opening (head_ne_of_goesOn goesOn) isStyle opened
      have within := inInside (token.kind :: stack) rfl rfl
        isCell.of_cons (styles.cons isStyle)
      cases within with
      | stops remaining isSuffix isRest =>
          rw [isRest, (isCell.of_cons.of_suffix isSuffix).not_atLineEnd isBar]
            at ended
          cases ended
      | passes isSuffix member remainOpen =>
          refine .passes isSuffix ?_ (opening ▸ remainOpen)
          simp [Element.leavesOf, Element.leaves, member]

end Inline
end Markup
end NotePress
