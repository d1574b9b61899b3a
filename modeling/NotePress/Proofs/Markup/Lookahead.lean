import NotePress.Proofs.Markup.TreeGrammar

/-!
# Delimiters that look for a partner

A delimiter that may open a span looks for the next delimiter of its kind on the
rest of its line, whatever stands in between. The tree of a source tells of every
such delimiter whether it opened a span; it did exactly when there was a partner
(`answered_parse`).
-/

namespace NotePress
namespace Markup

/-! ## Signs -/

namespace Kind

/-- The kinds of the nodes whose content is not looked at. -/
def isVerbatim : Kind → Bool
  | literal | quotation | parameters | codeBlock => true
  | _ => false

/-- The kinds of styled spans. -/
def isStyled : Kind → Bool
  | bold | italics | underline | strikeout => true
  | _ => false

end Kind

/-- The kind that the lexer gave to the token of a leaf. -/
def Token.rawKind (leaf : Token) : Kind :=
  if leaf.kind = .delimiter then
    match leaf.text.toList with
    | [character] => (Lexer.punctuation? character).getD .delimiter
    | _ => .delimiter
  else
    leaf.kind

/-- A token as the delimiters before it see it. One that is not inside verbatim
content and did not close a span may itself have opened a span. -/
structure Sign where
  kind : Kind
  opened : Option Bool
  deriving DecidableEq, Repr

namespace Element

/-- The sign of a leaf that opens nothing. -/
def hidden (leaf : Token) : Sign :=
  ⟨leaf.rawKind, none⟩

mutual

/-- The signs of an element. A delimiter opens a span where one is expected. -/
def signs (opens : Bool) : Element → List Sign
  | leaf kind text =>
      [⟨Token.rawKind ⟨kind, text⟩,
        if kind = .delimiter then (if opens then some true else none)
        else some false⟩]
  | node kind children =>
      if kind.isVerbatim then (leavesOf children).map hidden
      else signsOf kind.isStyled children

/-- The signs of some elements. The first may open a span. -/
def signsOf (opens : Bool) : List Element → List Sign
  | [] => []
  | first :: others => signs opens first ++ signsOf false others

end

/-- Verbatim content has signs that open nothing. -/
theorem signs_verbatim
    {kind : Kind}
    (verbatim : kind.isVerbatim = true)
    (opens : Bool)
    (children : List Element) :
    signs opens (.node kind children) = (leavesOf children).map hidden := by
  rw [signs, if_pos verbatim]

/-- The signs of a styled span are those of its children, the first of which may open
it. -/
theorem signs_styled
    {kind : Kind}
    (styled : kind.isStyled = true)
    (opens : Bool)
    (children : List Element) :
    signs opens (.node kind children) = signsOf true children := by
  rw [signs, if_neg (by cases kind <;> first | decide | cases styled), styled]

/-- The signs of any other node are those of its children, and it is not opened by the
first. -/
theorem signs_node
    {kind : Kind}
    (plain : kind.isVerbatim = false)
    (unstyled : kind.isStyled = false)
    (opens : Bool)
    (children : List Element) :
    signs opens (.node kind children) = signsOf false children := by
  rw [signs, if_neg (by simp [plain]), unstyled]

/-- The signs of elements are joined from those of their parts: only the first element
may open a span. -/
theorem signsOf_append
    (opens : Bool)
    {first : List Element}
    (second : List Element)
    (nonempty : opens = false ∨ first ≠ []) :
    signsOf opens (first ++ second) =
      signsOf opens first ++ signsOf false second := by
  induction first generalizing opens with
  | nil =>
      obtain rfl := nonempty.resolve_right (not_not_intro rfl)
      rfl
  | cons element others inductionHypothesis =>
      rw [List.cons_append, signsOf, signsOf, inductionHypothesis _ (.inl rfl),
        List.append_assoc]

end Element

/-- The kind of the last token, given that of the one before the first. -/
def lastKind (previous : Kind) : List Sign → Kind
  | [] => previous
  | sign :: others => lastKind sign.kind others

/-- The last token of two pieces is that of the second piece, given that of the
first. -/
theorem lastKind_append
    (previous : Kind)
    (first second : List Sign) :
    lastKind previous (first ++ second) =
      lastKind (lastKind previous first) second := by
  induction first generalizing previous with
  | nil => rfl
  | cons sign others inductionHypothesis => exact inductionHypothesis sign.kind

/-! ## Answers -/

/-- The kinds of tokens up to the end of the line. -/
def restOfLine (kinds : List Kind) : List Kind :=
  kinds.takeWhile (· != .newline)

/-- Whether tokens of a kind look for a partner. -/
def Kind.seeks (kind : Kind) : Bool :=
  kind.style?.isSome || kind == backtick || kind == quote

/-- Whether a delimiter may open a span between a token of a kind and the kinds
on the rest of the line, if there is a partner among them. -/
def mayOpen (previous mark : Kind) (next : List Kind) : Bool :=
  mark.seeks &&
    (mark.style?.isNone ||
      Inline.opensAfter mark previous && next.head?.any (· != .whitespace))

/-- Each of some signs that may open a span has done so exactly when there is a
partner on the rest of its line. -/
def Answered
    (previous : Kind)
    (following : List Kind) : List Sign → Prop
  | [] => True
  | sign :: others =>
      let next := restOfLine (others.map Sign.kind ++ following)
      (∀ opened, sign.opened = some opened →
        mayOpen previous sign.kind next = true →
          (opened = true ↔ sign.kind ∈ next)) ∧
      Answered sign.kind following others

theorem restOfLine_newline (others : List Kind) :
    restOfLine (.newline :: others) = [] := rfl

/-- Whatever is no line ending is on the line. -/
theorem restOfLine_cons
    {kind : Kind}
    (visible : kind ≠ .newline)
    (others : List Kind) :
    restOfLine (kind :: others) = kind :: restOfLine others := by
  rw [restOfLine, List.takeWhile_cons, if_pos (by simpa using visible),
    restOfLine]

/-- The rest of a line depends on what follows only by the rest of the line there. -/
theorem restOfLine_append_congr
    (same : restOfLine following = restOfLine others)
    (kinds : List Kind) :
    restOfLine (kinds ++ following) = restOfLine (kinds ++ others) := by
  induction kinds with
  | nil => exact same
  | cons first rest inductionHypothesis =>
      simp only [restOfLine, List.cons_append, List.takeWhile_cons]
        at inductionHypothesis ⊢
      rw [inductionHypothesis]

/-- What follows a line ending is not on the line. -/
theorem restOfLine_append_of_mem
    (newline : .newline ∈ kinds)
    (others : List Kind) :
    restOfLine (kinds ++ others) = restOfLine kinds :=
  takeWhile_append_of_mem ⟨.newline, newline, by decide⟩ others

/-- Without a line ending, all tokens are on the line, and what follows goes on with
it. -/
theorem restOfLine_append_of_notMem
    (visible : .newline ∉ kinds)
    (others : List Kind) :
    restOfLine (kinds ++ others) = kinds ++ restOfLine others := by
  induction kinds with
  | nil => rfl
  | cons first rest inductionHypothesis =>
      rw [List.mem_cons, not_or] at visible
      rw [List.cons_append, restOfLine_cons (Ne.symm visible.1),
        inductionHypothesis visible.2, List.cons_append]

namespace Answered

/-- The answers of two pieces are right together when those of the first are in front of
the second, and those of the second after the first. -/
theorem append_iff :
    Answered previous following (first ++ second) ↔
      Answered previous (second.map Sign.kind ++ following) first ∧
        Answered (lastKind previous first) following second := by
  induction first generalizing previous with
  | nil => simp [Answered, lastKind]
  | cons sign others inductionHypothesis =>
      simp only [List.cons_append, Answered, lastKind, inductionHypothesis,
        List.map_append, List.append_assoc, and_assoc]

/-- Only what is on the same line counts. -/
theorem congr_following
    (same : restOfLine following = restOfLine other) :
    Answered previous following signs ↔ Answered previous other signs := by
  induction signs generalizing previous with
  | nil => exact Iff.rfl
  | cons sign others inductionHypothesis =>
      simp only [Answered, inductionHypothesis,
        restOfLine_append_congr same (others.map Sign.kind)]

/-- The token in front counts only by what may open after it. -/
theorem congr_previous
    (same : ∀ mark, Inline.opensAfter mark previous =
      Inline.opensAfter mark other) :
    Answered previous following signs ↔ Answered other following signs := by
  cases signs with
  | nil => exact Iff.rfl
  | cons sign others => simp only [Answered, mayOpen, same]

/-- Signs that look for no partner. -/
theorem of_quiet
    (quiet : ∀ sign ∈ signs, sign.opened = none ∨ sign.kind.seeks = false) :
    Answered previous following signs := by
  induction signs generalizing previous with
  | nil => trivial
  | cons sign others inductionHypothesis =>
      rw [List.forall_mem_cons] at quiet
      refine ⟨?_, inductionHypothesis quiet.2⟩
      intro opened isOpened mayOpen
      rcases quiet.1 with none | silent
      · rw [none] at isOpened
        cases isOpened
      · rw [Markup.mayOpen, silent] at mayOpen
        cases mayOpen

end Answered

/-! ## Partners among tokens -/

namespace Inline

/-- A delimiter finds a partner exactly when one is on the rest of its line. -/
theorem isSome_splitAtClosing
    (mark : Kind)
    (tokens : List Token) :
    (splitAtClosing mark tokens).isSome = true ↔
      mark ∈ restOfLine (tokens.map Token.kind) := by
  induction tokens with
  | nil => simp [splitAtClosing, restOfLine]
  | cons first others inductionHypothesis =>
      rw [splitAtClosing, List.map_cons]
      by_cases newline : first.kind = .newline
      · simp [newline, restOfLine_newline]
      · rw [if_neg newline, restOfLine_cons newline, List.mem_cons]
        by_cases isMark : first.kind = mark
        · simp [isMark]
        · rw [if_neg isMark, Option.isSome_map, inductionHypothesis]
          simp [Ne.symm isMark]

/-- Tokens start visibly when the line goes on with something that is no blank. -/
theorem startsVisibly_eq (tokens : List Token) :
    startsVisibly tokens =
      (restOfLine (tokens.map Token.kind)).head?.any (· != .whitespace) := by
  cases tokens with
  | nil => rfl
  | cons first others =>
      rw [startsVisibly, List.map_cons]
      by_cases newline : first.kind = .newline
      · simp [newline, restOfLine_newline]
      · simp [restOfLine_cons newline, newline]

/-- A styling delimiter opens a span exactly when it may and there is a partner on the
rest of its line. -/
theorem opens_iff
    (isStyle : mark.style? = some style)
    (tokens : List Token) :
    opens previous mark tokens = true ↔
      mayOpen previous mark (restOfLine (tokens.map Token.kind)) = true ∧
        mark ∈ restOfLine (tokens.map Token.kind) := by
  rw [opens, Bool.and_eq_true, isSome_splitAtClosing, startsVisibly_eq, mayOpen,
    Kind.seeks, isStyle]
  simp

end Inline

/-! ## Signs of tokens -/

namespace Token.IsLexed

/-- The lexer's kind of a token can be told from its text and its kind in the tree. -/
theorem rawKind {token : Token} (lexed : token.IsLexed) :
    token.rawKind = token.kind := by
  rw [Token.rawKind, if_neg lexed.ne_delimiter]

/-- The character of a delimiter tells the kind of its token. -/
theorem rawKind_delimiter
    {token : Token}
    (lexed : token.IsLexed)
    (isSign :
      Lexer.punctuation? (Lexer.sign token.kind) = some token.kind) :
    Token.rawKind ⟨.delimiter, token.text⟩ = token.kind := by
  rw [Token.rawKind, if_pos rfl]
  rw [lexed.text_of_sign rfl isSign]
  simp [isSign]

end Token.IsLexed

/-- A leaf that is no line ending was not lexed as one. -/
theorem Token.rawKind_ne_newline
    {leaf : Token}
    (visible : leaf.kind ≠ .newline) :
    leaf.rawKind ≠ .newline := by
  unfold Token.rawKind
  split
  · split
    · rename_i character _
      cases found : Lexer.punctuation? character with
      | none => decide
      | some kind =>
          rintro rfl
          cases Lexer.punctuation_sign found
    · decide
  · exact visible

/-- Leaves without a line ending were lexed without one. -/
theorem newline_notMem_rawKinds
    {leaves : List Token}
    (visible : ∀ leaf ∈ leaves, leaf.kind ≠ .newline) :
    .newline ∉ leaves.map Token.rawKind := by
  intro member
  obtain ⟨leaf, inside, newline⟩ := List.mem_map.mp member
  exact Token.rawKind_ne_newline (visible leaf inside) newline

namespace Element

/-- A token of its own kind has its kind as sign and has opened nothing. -/
theorem signs_ofToken (lexed : token.IsLexed) :
    signs opens (.ofToken token) = [⟨token.kind, some false⟩] := by
  rw [ofToken, signs, if_neg lexed.ne_delimiter, lexed.rawKind]

/-- A delimiter has opened a span where one is expected, and has no answer elsewhere. -/
theorem signs_ofDelimiter
    (lexed : token.IsLexed)
    (isSign :
      Lexer.punctuation? (Lexer.sign token.kind) = some token.kind)
    (opens : Bool) :
    signs opens (.ofDelimiter token) =
      [⟨token.kind, if opens then some true else none⟩] := by
  rw [ofDelimiter, signs, lexed.rawKind_delimiter isSign, if_pos rfl]

/-- The signs of tokens whose content is not looked at have the kinds of the tokens. -/
theorem map_kind_hidden (lexed : AllLexed tokens) :
    (tokens.map hidden).map Sign.kind = tokens.map Token.kind := by
  rw [List.map_map, List.map_inj_left]
  exact fun token member => (lexed token member).rawKind

end Element

/-! ## Derivations have answers -/

/-- What signs tell of tokens that were read: their kinds, the kind of the last
one, and that all answers are right. -/
structure Traced
    (previous : Kind)
    (tokens : List Token)
    (signs : List Sign)
    (last : Kind)
    (rest : List Token) : Prop where
  kinds :
    tokens.map Token.kind = signs.map Sign.kind ++ rest.map Token.kind
  final : lastKind previous signs = last
  answered : Answered previous (rest.map Token.kind) signs

namespace Traced

theorem append
    (first : Traced previous tokens signs between middle)
    (second : Traced between middle others last rest) :
    Traced previous tokens (signs ++ others) last rest := by
  refine ⟨?_, ?_, ?_⟩
  · rw [first.kinds, second.kinds, List.map_append, List.append_assoc]
  · rw [lastKind_append, first.final, second.final]
  · rw [Answered.append_iff, first.final, ← second.kinds]
    exact ⟨first.answered, second.answered⟩

theorem nil : Traced previous tokens [] previous tokens :=
  ⟨rfl, rfl, trivial⟩

/-- A token that looks for no partner. -/
theorem quiet
    {token : Token}
    (isQuiet : opened = none ∨ token.kind.seeks = false) :
    Traced previous (token :: rest) [⟨token.kind, opened⟩] token.kind rest := by
  refine ⟨rfl, rfl, .of_quiet ?_⟩
  intro sign member
  rw [List.mem_singleton.mp member]
  exact isQuiet

/-- Tokens whose content is not looked at. -/
theorem hidden
    (lexed : AllLexed inside)
    (previous : Kind)
    (rest : List Token) :
    Traced previous (inside ++ rest) (inside.map Element.hidden)
      (lastKind previous (inside.map Element.hidden)) rest := by
  refine ⟨?_, rfl, .of_quiet ?_⟩
  · rw [Element.map_kind_hidden lexed, List.map_append]
  · intro sign member
    obtain ⟨token, _, rfl⟩ := List.mem_map.mp member
    exact .inl rfl

/-- After verbatim content, the last token is the last one of the content, or the
delimiter that opened it. -/
theorem lastKind_hidden
    {opening : Token}
    (lexed : AllLexed inside) :
    lastKind opening.kind (inside.map Element.hidden) =
      (inside.getLast?.getD opening).kind := by
  induction inside generalizing opening with
  | nil => rfl
  | cons first others inductionHypothesis =>
      have here : (Element.hidden first).kind = first.kind := lexed.head.rawKind
      rw [List.map_cons, lastKind, here, inductionHypothesis lexed.of_cons,
        List.getLast?_cons]
      rfl

/-- A delimiter whose content is not looked at. -/
theorem hiddenDelimiter
    {token : Token}
    (lexed : token.IsLexed)
    (isSign :
      Lexer.punctuation? (Lexer.sign token.kind) = some token.kind)
    (previous : Kind)
    (rest : List Token) :
    Traced previous (token :: rest)
      [Element.hidden ⟨.delimiter, token.text⟩] token.kind rest := by
  rw [Element.hidden, lexed.rawKind_delimiter isSign]
  exact quiet (.inl rfl)

end Traced

namespace Inline

/-- Verbatim content between two delimiters. -/
theorem traced_enclosed
    {opening closing : Token}
    (lexed : AllLexed (opening :: inside ++ closing :: rest))
    (openingSign :
      Lexer.punctuation? (Lexer.sign opening.kind) = some opening.kind)
    (closingSign :
      Lexer.punctuation? (Lexer.sign closing.kind) = some closing.kind)
    (previous : Kind) :
    Traced previous (opening :: inside ++ closing :: rest)
      ((Element.leavesOf (.ofDelimiter opening :: inside.map .ofToken ++
        [.ofDelimiter closing])).map Element.hidden)
      closing.kind rest := by
  have insideLexed : AllLexed inside := fun part member =>
    lexed part (by simp [member])
  have front := (Traced.hiddenDelimiter lexed.head openingSign previous
    (inside ++ closing :: rest)).append
      (.hidden insideLexed opening.kind (closing :: rest))
  have whole := front.append (.hiddenDelimiter
    (lexed closing (by simp)) closingSign _ rest)
  rw [List.cons_append, List.cons_append, Element.leavesOf,
    Element.leavesOf_append, Element.leavesOf_ofTokens]
  simpa [Element.ofDelimiter, Element.leaves, Element.leavesOf] using whole

/-- The delimiters of verbatim content are characters of their own and open no styled
span. -/
theorem sign_of_isRaw
    {mark kind : Kind}
    (isRaw : IsRaw mark kind) :
    Lexer.punctuation? (Lexer.sign mark) = some mark ∧
      kind.isVerbatim = true ∧ mark.style? = none := by
  cases isRaw <;> exact ⟨rfl, rfl, rfl⟩

/-- A kind that starts no element of a line looks for no partner. -/
theorem seeks_of_not_starter
    {kind : Kind}
    (unstyled : kind.style? = none)
    (other : kind ∉ starters) :
    kind.seeks = false := by
  cases kind with
  | backtick => exact absurd (by decide) other
  | quote => exact absurd (by decide) other
  | star | slash | underscore | dash => cases unstyled
  | _ => rfl

/-- Delimiters that stand for blanks are traced. -/
theorem traced_delimiters
    (lexed : AllLexed blanks)
    (isBlank : ∀ blank ∈ blanks, blank.kind = .underscore)
    (previous : Kind)
    (rest : List Token) :
    Traced previous (blanks ++ rest)
      (Element.signsOf false (blanks.map .ofDelimiter))
      (lastKind previous (Element.signsOf false (blanks.map .ofDelimiter)))
      rest := by
  induction blanks generalizing previous with
  | nil => exact .nil
  | cons blank blanks inductionHypothesis =>
      have here := isBlank blank List.mem_cons_self
      rw [List.map_cons, Element.signsOf, Element.signs_ofDelimiter lexed.head
        (by rw [here]; rfl) false]
      have first : Traced previous (blank :: (blanks ++ rest))
          [⟨blank.kind, none⟩] blank.kind (blanks ++ rest) := .quiet (.inl rfl)
      exact first.append (inductionHypothesis lexed.of_cons
        (fun other member => isBlank other (List.mem_cons_of_mem _ member))
        blank.kind)

/-- The signs of an atom tell of its tokens. -/
theorem Atom.traced
    (atom : Atom token rest first last after)
    (lexed : AllLexed (token :: rest))
    (unstyled : token.kind.style? = none)
    (previous : Kind) :
    Traced previous (token :: rest) (Element.signs false first) last after := by
  have plain (silent : token.kind.seeks = false) :
      Traced previous (token :: rest) (Element.signs false (.ofToken token))
        token.kind rest := by
    rw [Element.signs_ofToken lexed.head]
    exact .quiet (.inr silent)
  have delimiter
      (isSign : Lexer.punctuation? (Lexer.sign token.kind) = some token.kind) :
      Traced previous (token :: rest) (Element.signs false (.ofDelimiter token))
        token.kind rest := by
    rw [Element.signs_ofDelimiter lexed.head isSign]
    exact .quiet (.inl rfl)
  cases atom with
  -- Only a delimiter of verbatim content has an answer to give: it found no partner.
  -- Everything else is quiet, or its content is not looked at.
  | bare other => exact plain (seeks_of_not_starter unstyled other)
  | unmatched isRaw missing =>
      rw [Element.signs_ofToken lexed.head]
      refine ⟨rfl, rfl, ?_, trivial⟩
      rintro _ ⟨⟩ _
      rw [List.map_nil, List.nil_append, ← isSome_splitAtClosing, missing]
      rfl
  | bracket isBracket => exact plain (by rw [isBracket]; rfl)
  | @span kind _ inside closing after _ isRaw divided =>
      obtain ⟨isSign, verbatim, _⟩ := sign_of_isRaw isRaw
      have closes := kind_of_splitAtClosing divided
      rw [splitAtClosing_append divided] at lexed ⊢
      rw [Element.signs_verbatim verbatim]
      exact traced_enclosed lexed isSign (by rw [closes]; exact isSign) previous
  | @checkbox tick _ closing after isBracket ticked isClosing =>
      have tickLexed := lexed.of_cons.head
      have closingLexed := lexed.of_cons.of_cons.head
      have silent : tick.kind.seeks = false := by
        rcases kind_of_isTick ticked with blank | isText
        · rw [blank]
          rfl
        · rw [isText]
          rfl
      have ticks : Traced token.kind (tick :: closing :: after)
          (Element.signs false (.ofToken tick)) tick.kind (closing :: after) := by
        rw [Element.signs_ofToken tickLexed]
        exact .quiet (.inr silent)
      have closes : Traced tick.kind (closing :: after)
          (Element.signs false (.ofDelimiter closing)) closing.kind after := by
        rw [Element.signs_ofDelimiter closingLexed (by rw [isClosing]; rfl)]
        exact .quiet (.inl rfl)
      rw [Element.signs_node rfl rfl]
      exact ((delimiter (by rw [isBracket]; rfl)).append
        (ticks.append (closes.append .nil)))
  | @textbox blanks _ closing after isBracket nonempty isBlank isClosing =>
      have blanksLexed : AllLexed blanks := fun blank member =>
        lexed blank (by simp [member])
      have closingLexed : closing.IsLexed := lexed closing (by simp)
      have inside := traced_delimiters blanksLexed isBlank token.kind
        (closing :: after)
      have closes (before : Kind) : Traced before (closing :: after)
          (Element.signsOf false [.ofDelimiter closing]) closing.kind after := by
        rw [Element.signsOf, Element.signs_ofDelimiter closingLexed
          (by rw [isClosing]; rfl)]
        exact .quiet (.inl rfl)
      rw [Element.signs_node rfl rfl, List.cons_append, Element.signsOf,
        Element.signsOf_append _ _ (.inl rfl)]
      exact (delimiter (by rw [isBracket]; rfl)).append (inside.append (closes _))
  | tag isName =>
      rw [Element.signs_node rfl rfl]
      exact (plain (by rw [isName]; rfl)).append .nil
  | @call inside _ opening closing after isName isOpening all isClosing =>
      have listed := traced_enclosed
        (fun part member => lexed part (List.mem_cons_of_mem _ member))
        (by rw [isOpening]; rfl) (by rw [isClosing]; rfl) token.kind
      rw [Element.signs_node rfl rfl, Element.signsOf, Element.signsOf,
        Element.signsOf, Element.signs_verbatim rfl, List.append_nil]
      exact (plain (by rw [isName]; rfl)).append listed
  | @openCall inside after _ opening isName isOpening all ended =>
      have insideLexed : AllLexed inside := fun part member =>
        lexed part (by simp [member])
      have opens := Traced.hiddenDelimiter lexed.of_cons.head
        (by rw [isOpening]; rfl) token.kind (inside ++ after)
      have listed := opens.append (.hidden insideLexed opening.kind after)
      rw [Element.signs_node rfl rfl, Element.signsOf, Element.signsOf,
        Element.signsOf, Element.signs_verbatim rfl, List.append_nil]
      have whole := (plain (by rw [isName]; rfl)).append listed
      rw [Traced.lastKind_hidden insideLexed] at whole
      have leaves : (Element.leavesOf (.ofDelimiter opening ::
          inside.map .ofToken)) = ⟨.delimiter, opening.text⟩ :: inside := by
        rw [Element.leavesOf, Element.leavesOf_ofTokens]
        rfl
      rw [leaves]
      exact whole
  | mention isName =>
      rw [Element.signs_node rfl rfl]
      exact (plain (by rw [isName]; rfl)).append .nil

/-- A styling delimiter has opened a span when it could. -/
theorem traced_opens
    {token : Token}
    (isStyle : token.kind.style? = some style)
    (decided : opens previous token.kind rest = opened) :
    Traced previous (token :: rest) [⟨token.kind, some opened⟩] token.kind
      rest := by
  refine ⟨rfl, rfl, ?_, trivial⟩
  rintro _ ⟨⟩ possible
  rw [List.map_nil, List.nil_append] at possible ⊢
  rw [← decided, opens_iff isStyle, possible]
  simp

/-- The delimiter of a style is a character of its own, and its span is looked into. -/
theorem sign_of_style
    {mark : Kind}
    (isStyle : mark.style? = some style) :
    Lexer.punctuation? (Lexer.sign mark) = some mark ∧
      style.isStyled = true := by
  cases mark <;> cases isStyle <;> exact ⟨rfl, rfl⟩

/-- The signs of a span are those of its delimiters and its content. -/
theorem signs_of_style
    {token : Token}
    (lexed : token.IsLexed)
    (isStyle : token.kind.style? = some style)
    (content : List Element) :
    Element.signs false (.node style (.ofDelimiter token :: content)) =
      ⟨token.kind, some true⟩ :: Element.signsOf false content := by
  obtain ⟨isSign, styled⟩ := sign_of_style isStyle
  rw [Element.signs_styled styled, Element.signsOf,
    Element.signs_ofDelimiter lexed isSign]
  rfl

/-- The signs of elements that start with a closed span. -/
theorem signsOf_closed
    {token closing : Token}
    (lexed : token.IsLexed)
    (closingLexed : closing.IsLexed)
    (isStyle : token.kind.style? = some style)
    (isClosing : closing.kind = token.kind)
    (content others : List Element) :
    Element.signsOf false
        (.node style
          (.ofDelimiter token :: content ++ [.ofDelimiter closing]) :: others) =
      ⟨token.kind, some true⟩ ::
        (Element.signsOf false content ++
          ⟨closing.kind, none⟩ :: Element.signsOf false others) := by
  have isSign := (sign_of_style isStyle).1
  rw [← isClosing] at isSign
  rw [Element.signsOf, List.cons_append, signs_of_style lexed isStyle,
    Element.signsOf_append false _ (.inl rfl), Element.signsOf,
    Element.signs_ofDelimiter closingLexed isSign]
  simp [Element.signsOf]

/-- The signs of elements tell of their tokens. -/
theorem Derives.traced
    (derives : Derives stops previous tokens content last rest)
    (lexed : AllLexed tokens) :
    Traced previous tokens (Element.signsOf false content) last rest := by
  induction derives with
  | done => exact .nil
  | atom _ unstyled atom _ inductionHypothesis =>
      exact (atom.traced lexed unstyled _).append
        (inductionHypothesis (lexed.of_cons.of_suffix atom.suffix))
  | mark _ isStyle closed _ inductionHypothesis =>
      rw [Element.signsOf, Element.signs_ofToken lexed.head]
      exact (traced_opens isStyle closed).append
        (inductionHypothesis lexed.of_cons)
  | closed _ isStyle opened inside isClosing _ inInside inOthers =>
      have closingLexed := lexed.of_cons.of_suffix inside.reads.suffix
      have content := (inInside lexed.of_cons).append
        ((Traced.quiet (.inl rfl)).append (inOthers closingLexed.of_cons))
      rw [signsOf_closed lexed.head closingLexed.head isStyle isClosing]
      exact (traced_opens isStyle opened).append content
  | unclosed _ isStyle opened _ _ inductionHypothesis =>
      have span := (traced_opens isStyle opened).append
        (inductionHypothesis lexed.of_cons)
      rw [Element.signsOf, signs_of_style lexed.head isStyle, Element.signsOf,
        List.append_nil]
      exact span

end Inline

/-! ## Trees have answers -/

namespace Element

mutual

/-- The signs of an element have the kinds that the lexer gave to its leaves. -/
theorem map_kind_signs (opens : Bool) :
    ∀ element, (signs opens element).map Sign.kind =
      element.leaves.map Token.rawKind
  | leaf kind text => rfl
  | node kind children => by
      rw [signs, leaves]
      split
      · rw [List.map_map]
        rfl
      · exact map_kind_signsOf kind.isStyled children

theorem map_kind_signsOf (opens : Bool) :
    ∀ elements, (signsOf opens elements).map Sign.kind =
      (leavesOf elements).map Token.rawKind
  | [] => rfl
  | first :: others => by
      rw [signsOf, leavesOf, List.map_append, List.map_append,
        map_kind_signs opens first, map_kind_signsOf false others]

end

/-- After elements that end with a line ending, a line starts. -/
theorem lastKind_of_ends
    (ends : endWithEnding elements = true)
    (previous : Kind) :
    lastKind previous (signsOf false elements) = .newline := by
  have last (signs : List Sign) (previous : Kind) :
      lastKind previous signs = (signs.map Sign.kind).getLast?.getD previous := by
    induction signs generalizing previous with
    | nil => rfl
    | cons sign others inductionHypothesis =>
        rw [lastKind, inductionHypothesis, List.map_cons, List.getLast?_cons]
        rfl
  rw [last, map_kind_signsOf, List.getLast?_map]
  rw [endWithEnding, Option.any_eq_true] at ends
  obtain ⟨leaf, isLast, newline⟩ := ends
  have kind : leaf.kind = .newline := eq_of_beq newline
  rw [isLast, Option.map_some, Option.getD_some, Token.rawKind,
    if_neg (by rw [kind]; decide), kind]

end Element

/-- Signs of a line whose answers are right whatever follows the line, when
something can follow. -/
def Settled
    (previous : Kind)
    (signs : List Sign)
    (rest : List Token) : Prop :=
  ∀ following, (rest = [] → following = []) →
    Answered previous following signs

/-- Signs that look for no partner are settled. -/
theorem Settled.of_quiet
    (quiet : ∀ sign ∈ signs, sign.opened = none ∨ sign.kind.seeks = false) :
    Settled previous signs rest :=
  fun _ _ => .of_quiet quiet

/-- After a line that ends, the next one starts afresh. -/
theorem Settled.append
    {first : List Element}
    (settled : Settled previous (Element.signsOf false first) middle)
    (ends : middle = [] ∨ Element.endWithEnding first = true)
    (later : Settled .newline (Element.signsOf false second) rest)
    (nothing : middle = [] → second = [] ∧ rest = []) :
    Settled previous (Element.signsOf false (first ++ second)) rest := by
  intro following ended
  rw [Element.signsOf_append false _ (.inl rfl), Answered.append_iff]
  rcases ends with empty | ends
  · obtain ⟨rfl, isEmpty⟩ := nothing empty
    rw [ended isEmpty]
    exact ⟨settled _ fun _ => rfl, trivial⟩
  · refine ⟨settled _ ?_, ?_⟩
    · intro empty
      obtain ⟨rfl, isEmpty⟩ := nothing empty
      exact ended isEmpty
    · rw [Element.lastKind_of_ends ends]
      exact later following ended

namespace Line

/-- The elements of a line with the line ending after them. -/
theorem Ending.settled
    (ending : Ending left elements rest)
    (lexed : AllLexed left)
    (traced : Traced previous tokens signs last left) :
    Settled previous (signs ++ Element.signsOf false elements) rest := by
  intro following ended
  rw [Answered.append_iff]
  cases ending with
  | @taken token _ newline =>
      rw [Element.signsOf, Element.signs_ofToken lexed.head, newline]
      refine ⟨?_, .of_quiet ?_⟩
      · apply (Answered.congr_following ?_).mp traced.answered
        rw [List.map_cons, newline]
        rfl
      · intro sign member
        rw [List.mem_singleton.mp member]
        exact .inr rfl
  | missing =>
      rw [ended rfl]
      exact ⟨traced.answered, trivial⟩

/-- The signs of cells tell of their tokens. -/
theorem Cells.traced
    (cells : Cells tokens parts rest)
    (lexed : AllLexed tokens) :
    ∃ last, Traced .pipe tokens (Element.signsOf false parts) last rest := by
  induction cells with
  | done => exact ⟨.pipe, .nil⟩
  | @blank rest token space =>
      refine ⟨token.kind, ?_⟩
      rw [Element.signsOf, Element.signs_ofToken lexed.head]
      exact .quiet (.inr (by rw [space]; rfl))
  | @cell tokens content last bar middle others rest _ inside isPipe _
      inductionHypothesis =>
      have barLexed := lexed.of_suffix inside.reads.suffix
      obtain ⟨final, later⟩ := inductionHypothesis barLexed.of_cons
      refine ⟨final, ?_⟩
      have closes : Traced last (bar :: middle)
          (Element.signs false (.ofDelimiter bar)) .pipe middle := by
        rw [Element.signs_ofDelimiter barLexed.head (by rw [isPipe]; rfl),
          ← isPipe]
        exact .quiet (.inl rfl)
      rw [Element.signsOf, Element.signs_node rfl rfl, Element.signsOf]
      exact (inside.traced lexed).append (closes.append later)
  | @lastCell tokens content last rest _ inside =>
      refine ⟨last, ?_⟩
      rw [Element.signsOf, Element.signs_node rfl rfl, Element.signsOf,
        List.append_nil]
      exact inside.traced lexed

/-- A row of a table has only right answers. -/
theorem Row.settled
    {element : Element}
    (row : Row tokens element rest)
    (lexed : AllLexed tokens) :
    Settled previous (Element.signs false element) rest := by
  cases row with
  | row isPipe cells taken =>
      obtain ⟨last, traced⟩ := cells.traced lexed.of_cons
      rename_i tokens parts middle ending bar
      have bar : Traced previous (bar :: tokens)
          (Element.signs false (.ofDelimiter bar)) .pipe tokens := by
        rw [Element.signs_ofDelimiter lexed.head (by rw [isPipe]; rfl),
          ← isPipe]
        exact .quiet (.inl rfl)
      have whole := taken.settled
        (lexed.of_cons.of_suffix cells.suffix) (bar.append traced)
      rw [Element.signs_node rfl rfl, List.cons_append, Element.signsOf,
        Element.signsOf_append false _ (.inl rfl), ← List.append_assoc]
      exact whole

/-- The rows of a table have only right answers, each line for itself. -/
theorem Rows.settled
    (rows : Rows tokens elements rest)
    (lexed : AllLexed tokens) :
    Settled .newline (Element.signsOf false elements) rest := by
  induction rows with
  | done => exact fun _ _ => trivial
  | @next tokens row middle rows rest isRow others inductionHypothesis =>
      have first : Settled .newline (Element.signsOf false [row]) middle := by
        rw [Element.signsOf, Element.signsOf, List.append_nil]
        exact isRow.settled lexed
      apply first.append isRow.ends
        (inductionHypothesis (lexed.of_suffix isRow.suffix))
      rintro rfl
      exact others.eq_nil

/-- A marker looks for no partner, and what it opens is looked into. -/
theorem Marker.quiet (marker : Marker tokens kind element rest) :
    (∀ sign ∈ Element.signs false element, sign.kind.seeks = false) ∧
      kind.isVerbatim = false ∧ kind.isStyled = false := by
  cases marker with
  | heading | unorderedItem | orderedItem =>
      refine ⟨?_, rfl, rfl⟩
      intro sign member
      rw [List.mem_singleton.mp member]
      rfl

/-- The lines that belong together have only right answers. -/
theorem Block.settled
    (block : Block tokens elements rest)
    (lexed : AllLexed tokens) :
    Settled .newline (Element.signsOf false elements) rest := by
  cases block with
  | @marked _ kind marker blank middle content last left ending _ isMarker
      isBlank inside taken =>
      have middleLexed := lexed.of_suffix isMarker.suffix
      have contentLexed :=
        middleLexed.of_cons.of_suffix inside.reads.suffix
      obtain ⟨quiet, plain, unstyled⟩ := isMarker.quiet
      have content := taken.settled contentLexed
        (inside.traced middleLexed.of_cons)
      intro following ended
      rw [Element.signsOf, Element.signsOf, List.append_nil,
        Element.signs_node plain unstyled, List.cons_append, List.cons_append,
        Element.signsOf, Element.signsOf, Element.signs_ofToken middleLexed.head,
        Element.signsOf_append false _ (.inl rfl), Answered.append_iff,
        Answered.append_iff]
      refine ⟨.of_quiet fun sign member => .inr (quiet sign member),
        .of_quiet ?_, content following ended⟩
      intro sign member
      rw [List.mem_singleton.mp member, isBlank]
      exact .inr rfl
  | @table tokens row middle rows _ isRow others =>
      rw [Element.signsOf, Element.signsOf, List.append_nil,
        Element.signs_node rfl rfl]
      have first : Settled .newline (Element.signsOf false [row]) middle := by
        rw [Element.signsOf, Element.signsOf, List.append_nil]
        exact isRow.settled lexed
      apply first.append isRow.ends (others.settled (lexed.of_suffix isRow.suffix))
      rintro rfl
      exact others.eq_nil
  | codeBlock =>
      rw [Element.signsOf, Element.signsOf, List.append_nil,
        Element.signs_verbatim rfl]
      apply Settled.of_quiet
      intro sign member
      obtain ⟨leaf, _, rfl⟩ := List.mem_map.mp member
      exact .inl rfl
  | text _ inside taken =>
      have contentLexed := lexed.of_suffix inside.reads.suffix
      rw [Element.signsOf_append false _ (.inl rfl)]
      exact taken.settled contentLexed (inside.traced lexed)

end Line

namespace Parse

/-- The lines of a paragraph have only right answers. -/
theorem Lines.settled
    (lines : Lines tokens elements rest)
    (lexed : AllLexed tokens) :
    Settled .newline (Element.signsOf false elements) rest := by
  induction lines with
  | last block => exact block.settled lexed
  | next block goesOn _ inductionHypothesis =>
      apply (block.settled lexed).append block.ends
        (inductionHypothesis (lexed.of_suffix block.suffix))
      rintro rfl
      cases goesOn

/-- Whether a styling delimiter may open after a token of a kind as it may at the
start of a line. -/
def IsFresh (previous : Kind) : Prop :=
  ∀ mark, Inline.opensAfter mark previous = Inline.opensAfter mark .newline

/-- After a token of a blank line, a delimiter may open as at the start of a line. -/
theorem isFresh_of_atBlankLine
    {token : Token}
    (blank : atBlankLine (token :: rest) = true) :
    IsFresh token.kind ∨ Line.atLineEnd rest = true := by
  simp only [atBlankLine, Bool.or_eq_true, Bool.and_eq_true, beq_iff_eq] at blank
  rcases blank with newline | ⟨_, ended⟩
  · rw [newline]
    exact .inl fun mark => rfl
  · exact .inr ended

/-- In front of something visible, a delimiter may open as at the start of a line. -/
theorem isFresh_of_atVisible
    (fresh : IsFresh previous ∨ Line.atLineEnd tokens = true)
    (visible : Line.atVisible tokens = true) :
    IsFresh previous := by
  apply fresh.resolve_right
  intro ended
  rcases Line.eq_nil_or_newline_of_atLineEnd ended with
    rfl | ⟨ending, others, rfl, newline⟩
  · cases visible
  · simp [Line.atVisible, atBlankLine, newline] at visible

/-- After the lines of a paragraph, a delimiter may open as at the start of a line. -/
theorem Lines.isFresh
    (lines : Lines tokens elements rest)
    (previous : Kind) :
    IsFresh (lastKind previous (Element.signsOf false elements)) ∨
      Line.atLineEnd rest = true := by
  rcases lines.ends with rfl | ends
  · exact .inr rfl
  · rw [Element.lastKind_of_ends ends]
    exact .inl fun mark => rfl

/-- Every answer in a layout of tokens is right. -/
theorem Layout.answered
    (layout : Layout tokens elements)
    (lexed : AllLexed tokens)
    (fresh : IsFresh previous ∨ Line.atLineEnd tokens = true) :
    Answered previous [] (Element.signsOf false elements) := by
  induction layout generalizing previous with
  | nil => trivial
  | @blank token rest others blank layout inductionHypothesis =>
      rw [Element.signsOf, Element.signs_ofToken lexed.head, Answered.append_iff]
      refine ⟨.of_quiet ?_,
        inductionHypothesis lexed.of_cons (isFresh_of_atBlankLine blank)⟩
      intro sign member
      rw [List.mem_singleton.mp member]
      simp only [atBlankLine, Bool.or_eq_true, Bool.and_eq_true, beq_iff_eq]
        at blank
      rcases blank with newline | ⟨space, _⟩
      · exact .inr (by rw [newline]; rfl)
      · exact .inr (by rw [space]; rfl)
  | @paragraph tokens children rest others visible lines layout
      inductionHypothesis =>
      have isFresh := isFresh_of_atVisible fresh visible
      rw [Element.signsOf, Element.signs_node rfl rfl, Answered.append_iff]
      refine ⟨(Answered.congr_previous isFresh).mpr (lines.settled lexed _ ?_),
        inductionHypothesis (lexed.of_suffix lines.suffix)
          (lines.isFresh previous)⟩
      rintro rfl
      rw [layout.eq_nil]
      rfl

end Parse

/-- Every delimiter in the tree of a source that may open a span has done so
exactly when there is a partner for it on the rest of its line. -/
theorem answered_parse (source : String) :
    Answered .endOfInput [] (Element.signs false (parse source)) := by
  have layout := Parse.layout_sections (lex source)
  rw [parse, parseTokens, Element.signs_node rfl rfl]
  apply layout.answered (allLexed_lex source)
  left
  intro mark
  rfl

end Markup
end NotePress
