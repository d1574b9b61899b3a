import NotePress.Proofs.Markup.Lookahead
import NotePress.Proofs.Markup.Subtrees

/-!
# Doubled delimiters

A styling delimiter looks for a partner in all that follows it on its line, and
the next token may be this partner. So two delimiters in a row, the first of them
where a span may start, are a span with nothing in it, and there are no other
spans with nothing in them (`emptySpan_mem_parse_iff`).
-/

namespace NotePress
namespace Markup

/-- A span with nothing between its delimiters. -/
def emptySpan (style mark : Kind) : Element :=
  .node style
    [.leaf .delimiter (Lexer.sign mark).toString,
      .leaf .delimiter (Lexer.sign mark).toString]

/-- Among signs that follow a token of a kind and precede tokens of some kinds, a
delimiter that may start a span where it stands has another one right after it. -/
def Doubled
    (mark previous : Kind)
    (following : List Kind) : List Sign → Prop
  | [] => False
  | sign :: others =>
      (sign.kind = mark ∧ sign.opened.isSome = true ∧
        Inline.opensAfter mark previous = true ∧
        (others.map Sign.kind ++ following).head? = some mark) ∨
      Doubled mark sign.kind following others

namespace Doubled

/-- Delimiters are doubled among two pieces when they are among the first, in front of
the second, or among the second, after the first. -/
theorem append_iff :
    Doubled mark previous following (first ++ second) ↔
      Doubled mark previous (second.map Sign.kind ++ following) first ∨
        Doubled mark (lastKind previous first) following second := by
  induction first generalizing previous with
  | nil => simp [Doubled, lastKind]
  | cons sign others inductionHypothesis =>
      simp only [List.cons_append, Doubled, lastKind, inductionHypothesis,
        List.map_append, List.append_assoc, or_assoc]

/-- What follows counts only by its first token. -/
theorem congr_following
    (same : following.head? = other.head?) :
    Doubled mark previous following signs ↔
      Doubled mark previous other signs := by
  induction signs generalizing previous with
  | nil => exact Iff.rfl
  | cons sign others inductionHypothesis =>
      have sameNext : (others.map Sign.kind ++ following).head? =
          (others.map Sign.kind ++ other).head? := by
        rw [List.head?_append, List.head?_append, same]
      simp only [Doubled, inductionHypothesis, sameNext]

/-- The token in front counts only by what may open after it. -/
theorem congr_previous
    (same : Inline.opensAfter mark previous = Inline.opensAfter mark other) :
    Doubled mark previous following signs ↔
      Doubled mark other following signs := by
  cases signs with
  | nil => exact Iff.rfl
  | cons sign others => simp only [Doubled, same]

/-- Signs that are no delimiters of a kind, or none that may start a span. -/
theorem not_of_quiet
    (quiet : ∀ sign ∈ signs, sign.opened = none ∨ sign.kind ≠ mark) :
    ¬ Doubled mark previous following signs := by
  induction signs generalizing previous with
  | nil => exact id
  | cons sign others inductionHypothesis =>
      rw [List.forall_mem_cons] at quiet
      rintro (⟨isMark, mayOpen, _⟩ | later)
      · rcases quiet.1 with none | other
        · rw [none] at mayOpen
          cases mayOpen
        · exact other isMark
      · exact inductionHypothesis quiet.2 later

/-- Where the two delimiters stand. -/
theorem iff_exists :
    Doubled mark previous [] signs ↔
      ∃ before opened next after,
        signs = before ++ ⟨mark, some opened⟩ :: ⟨mark, next⟩ :: after ∧
          Inline.opensAfter mark (lastKind previous before) = true := by
  induction signs generalizing previous with
  | nil => simp [Doubled]
  | cons sign others inductionHypothesis =>
      rw [Doubled, inductionHypothesis]
      constructor
      · rintro (⟨isMark, mayOpen, opens, isNext⟩ |
          ⟨before, opened, next, after, rfl, opens⟩)
        · obtain ⟨opened, isOpened⟩ := Option.isSome_iff_exists.mp mayOpen
          cases others with
          | nil => cases isNext
          | cons next after =>
              cases sign
              cases next
              cases isMark
              cases isNext
              cases isOpened
              exact ⟨[], opened, _, after, rfl, opens⟩
        · exact ⟨sign :: before, opened, next, after, rfl, opens⟩
      · rintro ⟨before, opened, next, after, same, opens⟩
        cases before with
        | nil =>
            cases same
            exact .inl ⟨rfl, rfl, opens, rfl⟩
        | cons first before =>
            cases same
            exact .inr ⟨before, opened, next, after, rfl, opens⟩

end Doubled

/-- Elements without styled spans among them or inside them. -/
def AreUnstyled (elements : List Element) : Prop :=
  ∀ kind children, .node kind children ∈ Element.subtreesOf elements →
    kind.isStyled = false

namespace AreUnstyled

theorem nil : AreUnstyled [] := by
  intro kind children member
  cases member

theorem append
    (first : AreUnstyled elements)
    (second : AreUnstyled others) :
    AreUnstyled (elements ++ others) := by
  intro kind children member
  rw [Element.subtreesOf_append] at member
  exact (List.mem_append.mp member).elim (first kind children)
    (second kind children)

theorem leaf
    (others : AreUnstyled elements)
    (kind : Kind)
    (text : String) :
    AreUnstyled (.leaf kind text :: elements) := by
  intro inner children member
  rw [Element.subtreesOf, Element.subtrees, List.singleton_append] at member
  exact others inner children
    ((List.mem_cons.mp member).resolve_left (by rintro ⟨⟩))

theorem node
    (inside : AreUnstyled children)
    (unstyled : kind.isStyled = false) :
    AreUnstyled [.node kind children] := by
  intro inner grandchildren member
  rw [Element.subtreesOf, Element.subtrees, Element.subtreesOf,
    List.append_nil] at member
  rcases List.mem_cons.mp member with same | below
  · cases same
    exact unstyled
  · exact inside inner grandchildren below

/-- Leaves are no styled spans. -/
theorem of_leaves
    (leaves : ∀ element ∈ elements, ∃ kind text, element = .leaf kind text) :
    AreUnstyled elements := by
  induction elements with
  | nil => exact nil
  | cons first others inductionHypothesis =>
      rw [List.forall_mem_cons] at leaves
      obtain ⟨kind, text, rfl⟩ := leaves.1
      exact (inductionHypothesis leaves.2).leaf kind text

/-- Tokens that become a leaf each. -/
theorem of_map
    {become : Token → Element}
    (leaf : ∀ token, ∃ kind text, become token = .leaf kind text)
    (tokens : List Token) :
    AreUnstyled (tokens.map become) := by
  apply of_leaves
  intro element member
  obtain ⟨token, _, rfl⟩ := List.mem_map.mp member
  exact leaf token

theorem ofTokens (tokens : List Token) :
    AreUnstyled (tokens.map .ofToken) :=
  of_map (fun _ => ⟨_, _, rfl⟩) tokens

theorem ofDelimiters (tokens : List Token) :
    AreUnstyled (tokens.map .ofDelimiter) :=
  of_map (fun _ => ⟨_, _, rfl⟩) tokens

/-- What stands between two delimiters. -/
theorem enclosed (inside : AreUnstyled elements) :
    AreUnstyled (.ofDelimiter opening :: elements ++ [.ofDelimiter closing]) :=
  (inside.append (nil.leaf .delimiter closing.text)).leaf .delimiter
    opening.text

end AreUnstyled

/-- The spans with nothing in them, among some elements that follow a token of a
kind and precede tokens of some kinds, are those of doubled delimiters. -/
def TellsEmptySpans
    (style mark previous : Kind)
    (following : List Kind)
    (elements : List Element) : Prop :=
  emptySpan style mark ∈ Element.subtreesOf elements ↔
    Doubled mark previous following (Element.signsOf false elements)

namespace TellsEmptySpans

theorem nil : TellsEmptySpans style mark previous following [] :=
  ⟨fun member => (List.not_mem_nil member).elim, False.elim⟩

/-- Empty spans are told of two pieces when they are told of each, where it stands. -/
theorem append
    (first : TellsEmptySpans style mark previous
      ((Element.signsOf false others).map Sign.kind ++ following) elements)
    (second : TellsEmptySpans style mark
      (lastKind previous (Element.signsOf false elements)) following others) :
    TellsEmptySpans style mark previous following (elements ++ others) := by
  unfold TellsEmptySpans at first second ⊢
  rw [Element.subtreesOf_append, List.mem_append,
    Element.signsOf_append false _ (.inl rfl), Doubled.append_iff, first, second]

theorem congr_following
    (same : following.head? = other.head?)
    (tells : TellsEmptySpans style mark previous following elements) :
    TellsEmptySpans style mark previous other elements :=
  tells.trans (Doubled.congr_following same)

theorem congr_previous
    (same : Inline.opensAfter mark previous = Inline.opensAfter mark other)
    (tells : TellsEmptySpans style mark previous following elements) :
    TellsEmptySpans style mark other following elements :=
  tells.trans (Doubled.congr_previous same)

/-- Elements without styled spans and without delimiters of them. -/
theorem of_quiet
    (isStyle : mark.style? = some style)
    (plain : AreUnstyled elements)
    (quiet :
      ∀ sign ∈ Element.signsOf false elements,
        sign.opened = none ∨ sign.kind.style? = none) :
    TellsEmptySpans style mark previous following elements := by
  refine iff_of_false ?_ (Doubled.not_of_quiet ?_)
  · intro member
    have unstyled := plain _ _ member
    rw [(Inline.sign_of_style isStyle).2] at unstyled
    cases unstyled
  · intro sign member
    refine (quiet sign member).imp_right ?_
    rintro unstyled rfl
    rw [isStyle] at unstyled
    cases unstyled

/-- A node that is not a span. -/
theorem node
    (isStyle : mark.style? = some style)
    (plain : kind.isVerbatim = false)
    (unstyled : kind.isStyled = false)
    (inside : TellsEmptySpans style mark previous following children) :
    TellsEmptySpans style mark previous following [.node kind children] := by
  unfold TellsEmptySpans at inside ⊢
  have other : emptySpan style mark ≠ .node kind children := by
    rintro ⟨⟩
    rw [(Inline.sign_of_style isStyle).2] at unstyled
    cases unstyled
  rw [Element.subtreesOf, Element.subtreesOf, List.append_nil,
    Element.subtrees, List.mem_cons, or_iff_right other, Element.signsOf,
    Element.signsOf, List.append_nil, Element.signs_node plain unstyled, inside]

end TellsEmptySpans

/-! ## Elements within a line -/

namespace Element

/-- The signs of elements are the signs of each of them. -/
theorem mem_signsOf :
    sign ∈ signsOf false elements ↔
      ∃ element ∈ elements, sign ∈ signs false element := by
  induction elements with
  | nil => simp [signsOf]
  | cons first others inductionHypothesis =>
      rw [signsOf, List.mem_append, inductionHypothesis]
      simp

/-- A token of its own kind has one sign, and has opened nothing. -/
theorem signsOf_ofToken
    {token : Token}
    (lexed : token.IsLexed) :
    signsOf false [.ofToken token] = [⟨token.kind, some false⟩] := by
  rw [signsOf, signs_ofToken lexed]
  rfl

/-- A delimiter after other elements has one sign without an answer. -/
theorem signsOf_ofDelimiter
    {token : Token}
    (lexed : token.IsLexed)
    (isSign :
      Lexer.punctuation? (Lexer.sign token.kind) = some token.kind) :
    signsOf false [.ofDelimiter token] = [⟨token.kind, none⟩] := by
  rw [signsOf, signs_ofDelimiter lexed isSign]
  rfl

/-- A delimiter after other elements has opened nothing. -/
theorem opened_of_mem_ofDelimiter
    (member : sign ∈ signs false (.ofDelimiter token)) :
    sign.opened = none := by
  rw [List.mem_singleton.mp member]
  rfl

end Element

namespace Inline

/-- Verbatim content is no styled span. -/
theorem isStyled_of_isRaw
    {mark kind : Kind}
    (isRaw : IsRaw mark kind) :
    kind.isStyled = false := by
  cases isRaw <;> rfl

/-- There are no styled spans in an atom. -/
theorem Atom.areUnstyled (atom : Atom token rest first last after) :
    AreUnstyled [first] := by
  cases atom with
  | bare | unmatched | bracket => exact .ofTokens [token]
  | span isRaw =>
      exact .node (.enclosed (.ofTokens _)) (isStyled_of_isRaw isRaw)
  | checkbox => exact .node (.enclosed (.ofTokens [_])) rfl
  | textbox => exact .node (.enclosed (.ofDelimiters _)) rfl
  | tag | mention => exact .node (.ofTokens [token]) rfl
  | call =>
      exact .node (.leaf (.node (.enclosed (.ofTokens _)) rfl) _ _) rfl
  | openCall =>
      exact .node (.leaf (.node (.leaf (.ofTokens _) _ _) rfl) _ _) rfl

/-- The tokens of an atom may start no styled span. -/
theorem Atom.quiet
    (atom : Atom token rest first last after)
    (lexed : AllLexed (token :: rest))
    (unstyled : token.kind.style? = none) :
    ∀ sign ∈ Element.signsOf false [first],
      sign.opened = none ∨ sign.kind.style? = none := by
  have hidden (leaves : List Token) :
      ∀ sign ∈ leaves.map Element.hidden,
        sign.opened = none ∨ sign.kind.style? = none := by
    intro sign member
    obtain ⟨leaf, _, rfl⟩ := List.mem_map.mp member
    exact .inl rfl
  have plain : ∀ sign ∈ Element.signs false (.ofToken token),
      sign.opened = none ∨ sign.kind.style? = none := by
    rw [Element.signs_ofToken lexed.head, List.forall_mem_singleton]
    exact .inr unstyled
  rw [Element.signsOf, Element.signsOf, List.append_nil]
  cases atom with
  | bare | unmatched | bracket => exact plain
  | span isRaw =>
      rw [Element.signs_verbatim (sign_of_isRaw isRaw).2.1]
      exact hidden _
  | @checkbox tick _ closing after _ ticked =>
      have tickLexed := lexed.of_cons.head
      rw [Element.signs_node rfl rfl]
      intro sign member
      obtain ⟨element, inside, isSign⟩ := Element.mem_signsOf.mp member
      simp only [List.mem_cons, List.not_mem_nil, or_false] at inside
      rcases inside with rfl | rfl | rfl
      · exact .inl (Element.opened_of_mem_ofDelimiter isSign)
      · rw [Element.signs_ofToken tickLexed, List.mem_singleton] at isSign
        rw [isSign]
        right
        rcases kind_of_isTick ticked with isKind | isKind
        all_goals simp [isKind, Kind.style?]
      · exact .inl (Element.opened_of_mem_ofDelimiter isSign)
  | @textbox blanks _ closing =>
      rw [Element.signs_node rfl rfl]
      intro sign member
      obtain ⟨element, inside, isSign⟩ := Element.mem_signsOf.mp member
      simp only [List.cons_append, List.mem_cons, List.mem_append, List.mem_map,
        List.not_mem_nil, or_false] at inside
      rcases inside with rfl | ⟨blank, _, rfl⟩ | rfl
      all_goals exact .inl (Element.opened_of_mem_ofDelimiter isSign)
  | tag | mention =>
      rw [Element.signs_node rfl rfl, Element.signsOf, Element.signsOf,
        List.append_nil]
      exact plain
  | call | openCall =>
      rw [Element.signs_node rfl rfl, Element.signsOf, Element.signsOf,
        Element.signsOf, Element.signs_verbatim rfl, List.append_nil]
      exact List.forall_mem_append.mpr ⟨plain, hidden _⟩

/-- A delimiter before another one opens a span if it may. -/
theorem opens_of_next
    (isStyle : mark.style? = some style)
    (mayOpen : opensAfter mark previous = true)
    (isNext : (tokens.map Token.kind).head? = some mark) :
    opens previous mark tokens = true := by
  cases tokens with
  | nil => cases isNext
  | cons next rest =>
      have isMark : next.kind = mark := Option.some.inj isNext
      have visible := ne_newline_of_style isStyle
      have notBlank : mark ≠ .whitespace := by
        rintro rfl
        cases isStyle
      have found : (splitAtClosing mark (next :: rest)).isSome = true := by
        rw [splitAtClosing, isMark, if_neg visible, if_pos rfl]
        rfl
      rw [opens, mayOpen, found, startsVisibly, isMark]
      simp [visible, notBlank]

/-- A styled span tells whether it is empty by the token after its delimiter. -/
theorem tells_span
    {token : Token}
    (isStyle : mark.style? = some style)
    (lexed : token.IsLexed)
    (isOwn : token.kind.style? = some own)
    (mayOpen : opensAfter token.kind previous = true)
    (inside : TellsEmptySpans style mark token.kind following content)
    (isEmpty :
      emptySpan style mark = .node own (.ofDelimiter token :: content) ↔
        token.kind = mark ∧
          ((Element.signsOf false content).map Sign.kind ++ following).head? =
            some mark) :
    TellsEmptySpans style mark previous following
      [.node own (.ofDelimiter token :: content)] := by
  unfold TellsEmptySpans at inside ⊢
  have other : emptySpan style mark ≠ .leaf .delimiter token.text := by
    rintro ⟨⟩
  have front : emptySpan style mark ∈
      Element.subtreesOf (.ofDelimiter token :: content) ↔
        emptySpan style mark ∈ Element.subtreesOf content := by
    rw [Element.subtreesOf, Element.ofDelimiter, Element.subtrees,
      List.singleton_append, List.mem_cons, or_iff_right other]
  rw [Element.subtreesOf, Element.subtreesOf, List.append_nil, Element.subtrees,
    List.mem_cons, front, inside, Element.signsOf, Element.signsOf,
    List.append_nil, signs_of_style lexed isOwn, Doubled, isEmpty]
  refine or_congr_left ⟨?_, ?_⟩
  · rintro ⟨rfl, isNext⟩
    exact ⟨rfl, rfl, mayOpen, isNext⟩
  · rintro ⟨isMark, _, _, isNext⟩
    exact ⟨isMark, isNext⟩

/-- A delimiter that opens a span may open one where it stands. -/
theorem opensAfter_of_opens (opened : opens previous mark rest = true) :
    opensAfter mark previous = true := by
  simp only [opens, Bool.and_eq_true] at opened
  exact opened.1.1

/-- Nothing is read up to a delimiter that comes next. -/
theorem Derives.eq_of_next
    {mark : Kind}
    (derives : Derives (· == mark) previous tokens content last rest)
    (isNext : (tokens.map Token.kind).head? = some mark) :
    content = [] ∧ rest = tokens := by
  cases tokens with
  | nil => cases isNext
  | cons next others =>
      have isMark : next.kind = mark := Option.some.inj isNext
      obtain ⟨nothing, _, same⟩ := derives.eq_of_stopsAt
        (by simp [stopsAt, isMark])
      exact ⟨nothing, same⟩

/-- A closed span is empty exactly when its delimiters stand next to each
other. -/
theorem emptySpan_eq_closed_iff
    {token closing : Token}
    (isStyle : mark.style? = some style)
    (isOwn : token.kind.style? = some own)
    (lexed : AllLexed (token :: rest))
    (inside : Derives (· == token.kind) token.kind rest content last
      (closing :: middle))
    (isClosing : closing.kind = token.kind) :
    emptySpan style mark =
        .node own (.ofDelimiter token :: (content ++ [.ofDelimiter closing])) ↔
      token.kind = mark ∧ (rest.map Token.kind).head? = some mark := by
  have closingLexed := (lexed.of_cons.of_suffix inside.reads.suffix).head
  constructor
  · intro same
    have nothing : content = [] := by
      cases content with
      | nil => rfl
      | cons first others => simp [emptySpan] at same
    subst nothing
    obtain ⟨rfl, _⟩ := Element.node.inj same
    have isMark := style_injective isOwn isStyle
    have kinds := (inside.traced lexed.of_cons).kinds
    rw [kinds, ← isMark]
    exact ⟨rfl, congrArg some isClosing⟩
  · rintro ⟨rfl, isNext⟩
    obtain ⟨rfl, rfl⟩ := inside.eq_of_next isNext
    obtain rfl := Option.some.inj (isStyle.symm.trans isOwn)
    have isSign := (sign_of_style isStyle).1
    rw [List.nil_append, Element.ofDelimiter, Element.ofDelimiter,
      lexed.head.text_of_sign rfl isSign,
      closingLexed.text_of_sign isClosing isSign, emptySpan]

/-- A span that nothing closes is not an empty one: an empty span has two delimiters. -/
theorem emptySpan_ne_unclosed
    {token : Token}
    (isOwn : token.kind.style? = some own)
    (lexed : AllLexed rest)
    (inside : Derives (· == token.kind) token.kind rest content last after) :
    emptySpan style mark ≠ .node own (.ofDelimiter token :: content) := by
  intro same
  have isContent : [.leaf .delimiter (Lexer.sign mark).toString] = content :=
    (List.cons.inj (Element.node.inj same).2).2
  have isMember := inside.isMember lexed _
    (isContent ▸ List.mem_singleton_self _)
  exact isMember.kind_notMem isOwn (by simp [Element.kind])

/-- The spans with nothing in them among the elements of a line are those of the
doubled delimiters. -/
theorem Derives.tellsEmptySpans
    {style mark : Kind}
    (isStyle : mark.style? = some style)
    (derives : Derives stops previous tokens content last rest)
    (lexed : AllLexed tokens) :
    TellsEmptySpans style mark previous (rest.map Token.kind) content := by
  induction derives with
  | done => exact .nil
  | @atom stops token rest first between middle others last after previous
      goesOn unstyled atom _ inductionHypothesis =>
      have final := (atom.traced lexed unstyled previous).final
      have alone : Element.signsOf false [first] = Element.signs false first :=
        List.append_nil _
      have here : TellsEmptySpans style mark previous
          ((Element.signsOf false others).map Sign.kind ++
            after.map Token.kind) [first] :=
        .of_quiet isStyle atom.areUnstyled (atom.quiet lexed unstyled)
      apply here.append
      rw [alone, final]
      exact inductionHypothesis (lexed.of_cons.of_suffix atom.suffix)
  | @mark stops token rest own previous others last after goesOn isOwn closed
      later inductionHypothesis =>
      have kinds := (later.traced lexed.of_cons).kinds
      have here : TellsEmptySpans style mark previous
          ((Element.signsOf false others).map Sign.kind ++
            after.map Token.kind) [.ofToken token] := by
        rw [← kinds]
        refine iff_of_false ?_ ?_
        · rintro (_ | ⟨_, ⟨⟩⟩)
        · rw [Element.signsOf, Element.signs_ofToken lexed.head]
          rintro (⟨isMark, _, mayOpen, isNext⟩ | ⟨⟨⟩⟩)
          subst isMark
          -- A delimiter with another one right after it would have opened a span.
          rw [opens_of_next isStyle mayOpen isNext] at closed
          cases closed
      apply here.append
      rw [Element.signsOf, Element.signs_ofToken lexed.head]
      exact inductionHypothesis lexed.of_cons
  | @closed stops token rest own previous content between closing middle others
      last after goesOn isOwn opened inside isClosing later inInside inOthers =>
      have closingLexed := lexed.of_cons.of_suffix inside.reads.suffix
      have kinds := (later.traced closingLexed.of_cons).kinds
      have isSign := (sign_of_style isOwn).1
      rw [← isClosing] at isSign
      have closes := Element.signsOf_ofDelimiter closingLexed.head isSign
      -- The closing delimiter stands after the content, and is no start of a span.
      have inner : TellsEmptySpans style mark token.kind (middle.map Token.kind)
          (content ++ [.ofDelimiter closing]) := by
        apply TellsEmptySpans.append
        · rw [closes]
          exact inInside lexed.of_cons
        · refine TellsEmptySpans.of_quiet isStyle (.ofDelimiters [closing]) ?_
          rw [closes]
          exact List.forall_mem_singleton.mpr (.inl rfl)
      have span : TellsEmptySpans style mark previous (middle.map Token.kind)
          [.node own
            (.ofDelimiter token :: (content ++ [.ofDelimiter closing]))] := by
        apply tells_span isStyle lexed.head isOwn (opensAfter_of_opens opened)
          inner
        rw [emptySpan_eq_closed_iff isStyle isOwn lexed inside isClosing,
          Element.signsOf_append false _ (.inl rfl), closes, List.map_append,
          List.append_assoc, (inside.traced lexed.of_cons).kinds]
        rfl
      rw [kinds] at span
      refine span.append ?_
      have final : lastKind previous (Element.signsOf false
          [.node own
            (.ofDelimiter token :: (content ++ [.ofDelimiter closing]))]) =
          closing.kind := by
        rw [Element.signsOf, Element.signsOf, List.append_nil,
          signs_of_style lexed.head isOwn,
          Element.signsOf_append false _ (.inl rfl), closes, lastKind,
          lastKind_append]
        rfl
      rw [final]
      exact inOthers closingLexed.of_cons
  | @unclosed stops token rest own previous content last after goesOn isOwn
      opened inside ended inductionHypothesis =>
      apply tells_span isStyle lexed.head isOwn (opensAfter_of_opens opened)
        (inductionHypothesis lexed.of_cons)
      refine iff_of_false
        (emptySpan_ne_unclosed isOwn lexed.of_cons inside) ?_
      rintro ⟨rfl, isNext⟩
      rw [← (inside.traced lexed.of_cons).kinds] at isNext
      obtain ⟨-, rfl⟩ := inside.eq_of_next isNext
      rcases Line.eq_nil_or_newline_of_atLineEnd ended with
        rfl | ⟨ending, others, rfl, newline⟩
      · cases isNext
      · exact ne_newline_of_style isOwn
          ((Option.some.inj isNext).symm.trans newline)

end Inline

/-! ## Lines and paragraphs -/

/-- Lines that tell their empty spans whatever follows them, when something can
follow. -/
def LinesTellEmptySpans
    (style mark previous : Kind)
    (elements : List Element)
    (rest : List Token) : Prop :=
  ∀ following, (rest = [] → following = []) →
    TellsEmptySpans style mark previous following elements

/-- After a line that ends, the next one starts afresh. -/
theorem LinesTellEmptySpans.append
    (first : LinesTellEmptySpans style mark previous elements middle)
    (ends : middle = [] ∨ Element.endWithEnding elements = true)
    (later : LinesTellEmptySpans style mark .newline others rest)
    (nothing : middle = [] → others = [] ∧ rest = []) :
    LinesTellEmptySpans style mark previous (elements ++ others) rest := by
  intro following ended
  rcases ends with empty | ends
  · obtain ⟨rfl, isEmpty⟩ := nothing empty
    rw [List.append_nil]
    exact first _ fun _ => ended isEmpty
  · apply TellsEmptySpans.append
    · apply first
      intro empty
      obtain ⟨rfl, isEmpty⟩ := nothing empty
      exact ended isEmpty
    · rw [Element.lastKind_of_ends ends]
      exact later following ended

section

variable
  {style mark : Kind}
  (isStyle : mark.style? = some style)

include isStyle

/-- A token that opens no style adds no empty span. -/
theorem tells_ofToken
    {token : Token}
    (lexed : token.IsLexed)
    (unstyled : token.kind.style? = none)
    (previous : Kind)
    (following : List Kind) :
    TellsEmptySpans style mark previous following [.ofToken token] := by
  refine TellsEmptySpans.of_quiet isStyle (.ofTokens [token]) ?_
  rw [Element.signsOf_ofToken lexed]
  exact List.forall_mem_singleton.mpr (.inr unstyled)

/-- A delimiter of a node adds no empty span. -/
theorem tells_ofDelimiter
    (token : Token)
    (previous : Kind)
    (following : List Kind) :
    TellsEmptySpans style mark previous following [.ofDelimiter token] := by
  apply TellsEmptySpans.of_quiet isStyle (.ofDelimiters [token])
  intro sign member
  rw [List.mem_singleton.mp member]
  exact .inl rfl

namespace Line

/-- A line tells its empty spans when the elements before its ending do. -/
theorem Ending.tells
    (ending : Ending left elements rest)
    (lexed : AllLexed left)
    (content : TellsEmptySpans style mark previous (left.map Token.kind)
      others) :
    LinesTellEmptySpans style mark previous (others ++ elements) rest := by
  intro following ended
  cases ending with
  | @taken token _ newline =>
      apply TellsEmptySpans.append
      · apply content.congr_following
        rw [Element.signsOf_ofToken lexed.head]
        rfl
      · exact tells_ofToken isStyle lexed.head (by rw [newline]; rfl) _ _
  | missing =>
      rw [ended rfl, List.append_nil]
      exact content

/-- The cells of a row tell their empty spans. -/
theorem Cells.tells
    (cells : Cells tokens parts rest)
    (lexed : AllLexed tokens) :
    TellsEmptySpans style mark .pipe (rest.map Token.kind) parts := by
  induction cells with
  | done => exact .nil
  | blank space =>
      exact tells_ofToken isStyle lexed.head (by rw [space]; rfl) _ _
  | @cell tokens content last bar middle others rest _ inside isPipe later
      inductionHypothesis =>
      have barLexed := lexed.of_suffix inside.reads.suffix
      obtain ⟨_, traced⟩ := later.traced barLexed.of_cons
      have bars := Element.signsOf_ofDelimiter barLexed.head
        (by rw [isPipe]; rfl)
      have after : TellsEmptySpans style mark last (rest.map Token.kind)
          ([.ofDelimiter bar] ++ others) := by
        apply TellsEmptySpans.append
        · exact tells_ofDelimiter isStyle bar _ _
        · rw [bars, isPipe]
          exact inductionHypothesis barLexed.of_cons
      have cell : TellsEmptySpans style mark .pipe
          ((bar :: middle).map Token.kind) [.node .tableCell content] :=
        .node isStyle rfl rfl (inside.tellsEmptySpans isStyle lexed)
      have kinds : (bar :: middle).map Token.kind =
          (Element.signsOf false ([.ofDelimiter bar] ++ others)).map Sign.kind ++
            rest.map Token.kind := by
        rw [Element.signsOf_append false _ (.inl rfl), bars, List.map_cons,
          traced.kinds]
        rfl
      have final : lastKind .pipe
          (Element.signsOf false [.node .tableCell content]) = last := by
        rw [Element.signsOf, Element.signsOf, List.append_nil,
          Element.signs_node rfl rfl]
        exact (inside.traced lexed).final
      rw [kinds] at cell
      apply cell.append
      rw [final]
      exact after
  | lastCell _ inside =>
      exact .node isStyle rfl rfl (inside.tellsEmptySpans isStyle lexed)

/-- A row of a table tells its empty spans. -/
theorem Row.tells
    {element : Element}
    (row : Row tokens element rest)
    (lexed : AllLexed tokens) :
    LinesTellEmptySpans style mark previous [element] rest := by
  cases row with
  | row isPipe cells taken =>
      rename_i tokens parts middle ending bar
      have bars := Element.signsOf_ofDelimiter lexed.head (by rw [isPipe]; rfl)
      have front : TellsEmptySpans style mark previous
          (middle.map Token.kind) ([.ofDelimiter bar] ++ parts) := by
        apply TellsEmptySpans.append
        · exact tells_ofDelimiter isStyle bar _ _
        · rw [bars, isPipe]
          exact cells.tells isStyle lexed.of_cons
      have whole := taken.tells isStyle
        (lexed.of_cons.of_suffix cells.suffix) front
      intro following ended
      exact .node isStyle rfl rfl (whole following ended)

/-- The rows of a table tell their empty spans. -/
theorem Rows.tells
    (rows : Rows tokens elements rest)
    (lexed : AllLexed tokens) :
    LinesTellEmptySpans style mark .newline elements rest := by
  induction rows with
  | done => exact fun _ _ => .nil
  | @next tokens row middle rows rest isRow others inductionHypothesis =>
      apply (isRow.tells isStyle lexed).append isRow.ends
        (inductionHypothesis (lexed.of_suffix isRow.suffix))
      rintro rfl
      exact others.eq_nil

omit isStyle in
/-- Code is no markup. -/
theorem CodeLines.areUnstyled (lines : CodeLines tokens elements rest) :
    AreUnstyled elements := by
  induction lines with
  | missing => exact .nil
  | fence =>
      refine AreUnstyled.leaf (.of_map (fun token => ?_) _) _ _
      split <;> exact ⟨_, _, rfl⟩
  | line _ _ _ inductionHypothesis =>
      exact (AreUnstyled.ofTokens _).append inductionHypothesis

/-- The lines that belong together tell their empty spans. -/
theorem Block.tells
    (block : Block tokens elements rest)
    (lexed : AllLexed tokens) :
    LinesTellEmptySpans style mark .newline elements rest := by
  cases block with
  | @marked _ kind marker blank middle content last left ending _ isMarker
      isBlank inside taken =>
      have middleLexed := lexed.of_suffix isMarker.suffix
      have contentLexed :=
        middleLexed.of_cons.of_suffix inside.reads.suffix
      obtain ⟨quiet, plain, unstyled⟩ := isMarker.quiet
      have content := taken.tells isStyle contentLexed
        (inside.tellsEmptySpans isStyle middleLexed.of_cons)
      have front (previous : Kind) (following : List Kind) :
          TellsEmptySpans style mark previous following [marker] := by
        apply TellsEmptySpans.of_quiet isStyle
        · cases isMarker <;> exact .leaf .nil _ _
        · rw [Element.signsOf, Element.signsOf, List.append_nil]
          intro sign member
          have silent := quiet sign member
          simp only [Kind.seeks, Bool.or_eq_false_iff] at silent
          exact .inr (Option.not_isSome_iff_eq_none.mp (by simp [silent.1.1]))
      intro following ended
      apply TellsEmptySpans.node isStyle plain unstyled
      apply (front _ _).append
      have silent : blank.kind.style? = none := by
        rw [isBlank]
        rfl
      apply (tells_ofToken isStyle middleLexed.head silent _ _).append
      rw [Element.signsOf_ofToken middleLexed.head]
      exact content following ended
  | @table tokens row middle rows rest isRow others =>
      have lines : LinesTellEmptySpans style mark .newline ([row] ++ rows)
          rest := by
        apply (isRow.tells isStyle lexed).append isRow.ends
          (others.tells isStyle (lexed.of_suffix isRow.suffix))
        rintro rfl
        exact others.eq_nil
      intro following ended
      exact .node isStyle rfl rfl (lines following ended)
  | @codeBlock ticks tokens command middle others rest _ _ lines =>
      intro following ended
      apply TellsEmptySpans.of_quiet isStyle
      · have code := (AreUnstyled.ofTokens command).append lines.areUnstyled
        exact .node (code.leaf _ _) rfl
      · rw [Element.signsOf, Element.signsOf, List.append_nil,
          Element.signs_verbatim rfl]
        intro sign member
        obtain ⟨leaf, _, rfl⟩ := List.mem_map.mp member
        exact .inl rfl
  | text _ inside taken =>
      have contentLexed := lexed.of_suffix inside.reads.suffix
      exact taken.tells isStyle contentLexed
        (inside.tellsEmptySpans isStyle lexed)

end Line

namespace Parse

/-- The lines of a paragraph tell their empty spans. -/
theorem Lines.tells
    (lines : Lines tokens elements rest)
    (lexed : AllLexed tokens) :
    LinesTellEmptySpans style mark .newline elements rest := by
  induction lines with
  | last block => exact block.tells isStyle lexed
  | next block goesOn _ inductionHypothesis =>
      apply (block.tells isStyle lexed).append block.ends
        (inductionHypothesis (lexed.of_suffix block.suffix))
      rintro rfl
      cases goesOn

/-- The empty spans of a layout are those of doubled delimiters. -/
theorem Layout.tells
    (layout : Layout tokens elements)
    (lexed : AllLexed tokens)
    (fresh : IsFresh previous ∨ Line.atLineEnd tokens = true) :
    TellsEmptySpans style mark previous [] elements := by
  induction layout generalizing previous with
  | nil => exact .nil
  | @blank token rest others blank layout inductionHypothesis =>
      have unstyled : token.kind.style? = none := by
        simp only [atBlankLine, Bool.or_eq_true, Bool.and_eq_true, beq_iff_eq]
          at blank
        rcases blank with newline | ⟨space, _⟩
        · rw [newline]
          rfl
        · rw [space]
          rfl
      have first := tells_ofToken isStyle lexed.head unstyled previous
        ((Element.signsOf false others).map Sign.kind ++ [])
      apply first.append
      rw [Element.signsOf_ofToken lexed.head]
      exact inductionHypothesis lexed.of_cons (isFresh_of_atBlankLine blank)
  | @paragraph tokens children rest others visible lines layout
      inductionHypothesis =>
      have isFresh := isFresh_of_atVisible fresh visible
      have nothing : rest = [] →
          (Element.signsOf false others).map Sign.kind ++ [] = [] := by
        rintro rfl
        rw [layout.eq_nil]
        rfl
      have paragraph :=
        (lines.tells isStyle lexed _ nothing).congr_previous (isFresh mark).symm
      have whole : TellsEmptySpans style mark previous
          ((Element.signsOf false others).map Sign.kind ++ [])
          [.node .paragraph children] :=
        .node isStyle rfl rfl paragraph
      apply whole.append
      apply inductionHypothesis (lexed.of_suffix lines.suffix)
      rw [Element.signsOf, Element.signsOf, List.append_nil,
        Element.signs_node rfl rfl]
      exact lines.isFresh previous

end Parse

/-- The spans of a source with nothing in them are those of doubled delimiters:
a delimiter that may start a span where it stands, with another one right after
it. -/
theorem emptySpan_mem_parse_iff (source : String) :
    emptySpan style mark ∈ (parse source).subtrees ↔
      ∃ before opened next after,
        Element.signs false (parse source) =
          before ++ ⟨mark, some opened⟩ :: ⟨mark, next⟩ :: after ∧
        Inline.opensAfter mark (lastKind .endOfInput before) = true := by
  have layout := Parse.layout_sections (lex source)
  have fresh : Parse.IsFresh .endOfInput := fun _ => rfl
  have told : TellsEmptySpans style mark .endOfInput [] [parse source] :=
    .node isStyle rfl rfl
      (layout.tells isStyle (allLexed_lex source) (.inl fresh))
  unfold TellsEmptySpans at told
  rw [Element.subtreesOf, Element.subtreesOf, List.append_nil, Element.signsOf,
    Element.signsOf, List.append_nil] at told
  rw [told, Doubled.iff_exists]

end

end Markup
end NotePress
