import NotePress.Proofs.Markup.RefilledLines

/-!
# Replacing raw content

What stands between the delimiters of a literal, a quotation or a parameter list
is not looked into, but delimiters before it on its line look past it for their
partners. Putting another text there leaves everything around the node as it was
exactly when all of them find what they found before
(`parse_raw_iff_undisturbed`).
-/

namespace NotePress
namespace Markup

open Refilling (Elements Tokens)

/-! ## Comparing trees -/

namespace Element

mutual

/-- Whether two trees are the same. -/
def decEq : (first second : Element) → Decidable (first = second)
  | leaf kind text, leaf otherKind otherText =>
      decidable_of_iff (kind = otherKind ∧ text = otherText) (by simp)
  | leaf _ _, node _ _ => isFalse (by simp)
  | node _ _, leaf _ _ => isFalse (by simp)
  | node kind children, node otherKind others =>
      have := decEqAll children others
      decidable_of_iff (kind = otherKind ∧ children = others) (by simp)

/-- Whether two lists of trees are the same. -/
def decEqAll : (first second : List Element) → Decidable (first = second)
  | [], [] => isTrue rfl
  | [], _ :: _ => isFalse (by simp)
  | _ :: _, [] => isFalse (by simp)
  | first :: others, second :: rest =>
      have := decEq first second
      have := decEqAll others rest
      decidable_of_iff (first = second ∧ others = rest) (by simp)

end

instance : DecidableEq Element := decEq

end Element

/-! ## Places in a tree -/

/-- A node around a place in a tree: its kind, and what stands before and after
the place in it. -/
structure Frame where
  kind : Kind
  before : List Element
  after : List Element

/-- The tree with an element in a place. The outermost frame comes first. -/
def plug : List Frame → Element → Element
  | [], element => element
  | frame :: frames, element =>
      .node frame.kind (frame.before ++ plug frames element :: frame.after)

/-- The signs of what stands before a place. -/
def signsBefore : List Frame → List Sign
  | [] => []
  | frame :: frames =>
      Element.signsOf frame.kind.isStyled frame.before ++ signsBefore frames

/-- The signs of what stands after a place. -/
def signsAfter : List Frame → List Sign
  | [] => []
  | frame :: frames =>
      signsAfter frames ++ Element.signsOf false frame.after

theorem exists_node_plug
    (frames : List Frame)
    (kind : Kind)
    (children : List Element) :
    ∃ outer others, plug frames (.node kind children) = .node outer others := by
  cases frames with
  | nil => exact ⟨kind, children, rfl⟩
  | cons frame frames => exact ⟨_, _, rfl⟩

/-- What frames hold is not taken as it is, as it holds a node. -/
theorem not_isVerbatim_of_plug
    {kind : Kind}
    (found : parse source = plug frames (.node kind children)) :
    ∀ frame ∈ frames, frame.kind.isVerbatim = false := by
  have inside : ∀ element ∈ (plug frames (.node kind children)).subtrees,
      element ∈ (parse source).subtrees := by
    rw [found]
    exact fun _ => id
  clear found
  induction frames with
  | nil => exact List.forall_mem_nil _
  | cons frame frames inductionHypothesis =>
      obtain ⟨inner, others, isNode⟩ := exists_node_plug frames kind children
      rw [plug] at inside
      have child : .node inner others ∈
          frame.before ++ plug frames (.node kind children) :: frame.after := by
        simp [isNode]
      have holds :=
        holds_of_mem_parse (inside _ (Element.self_mem_subtrees _)) child
      rw [List.forall_mem_cons]
      refine ⟨?_, inductionHypothesis ?_⟩
      · generalize frame.kind = outer at holds
        cases outer <;> first | rfl | cases holds
      · intro element member
        refine inside element
          (Element.subtreesOf_subset_subtrees_node _ _ ?_)
        rw [Element.subtreesOf_append, Element.subtreesOf]
        simp [member]

namespace Element

/-- The signs around a node do not depend on it. -/
theorem signsOf_around
    (opens : Bool)
    (before : List Element)
    (kind : Kind)
    (children after : List Element) :
    signsOf opens (before ++ .node kind children :: after) =
      signsOf opens before ++
        (signs false (.node kind children) ++ signsOf false after) := by
  cases before with
  | nil =>
      rw [List.nil_append, signsOf, signsOf, signs, signs, List.nil_append]
  | cons first others =>
      have later : signsOf false (.node kind children :: after) =
          signs false (.node kind children) ++ signsOf false after := by
        rw [signsOf]
      rw [signsOf_append opens _ (.inr (List.cons_ne_nil _ _)), later]

end Element

theorem signs_plug
    {kind : Kind}
    (open_ : ∀ frame ∈ frames, frame.kind.isVerbatim = false)
    (children : List Element) :
    Element.signs false (plug frames (.node kind children)) =
      signsBefore frames ++
        (Element.signs false (.node kind children) ++ signsAfter frames) := by
  induction frames with
  | nil => rw [plug, signsBefore, signsAfter, List.append_nil, List.nil_append]
  | cons frame frames inductionHypothesis =>
      rw [List.forall_mem_cons] at open_
      obtain ⟨inner, others, isNode⟩ := exists_node_plug frames kind children
      have inside := inductionHypothesis open_.2
      rw [isNode] at inside
      rw [plug, signsBefore, signsAfter, isNode, Element.signs,
        if_neg (by simp [open_.1]), Element.signsOf_around, inside]
      simp only [List.append_assoc]

/-! ## Delimiters that look past a place -/

/-- The delimiters among some signs that look past all signs after them, up to a
token of a kind and further, each with whether it opened a span: those that may
open one and have neither a line ending nor one of their kind after them. -/
def seeking (previous next : Kind) : List Sign → List (Kind × Bool)
  | [] => []
  | sign :: others =>
      let between := others.map Sign.kind
      let asks :=
        mayOpen previous sign.kind (between ++ [next]) &&
          !between.contains .newline && !between.contains sign.kind
      (if asks then (sign.opened.map (sign.kind, ·)).toList else []) ++
        seeking sign.kind next others

theorem mayOpen_congr
    (same : first.head? = second.head?)
    (previous mark : Kind) :
    mayOpen previous mark first = mayOpen previous mark second := by
  rw [mayOpen, mayOpen, same]

/-- Where all answers were right, they are right after a change of what comes
next on the line exactly when the delimiters that look that far have right
answers. -/
theorem answered_iff_of_answered
    (known : Answered previous (next :: old ++ after) signs)
    (oldVisible : .newline ∉ next :: old)
    (newVisible : .newline ∉ next :: new) :
    Answered previous (next :: new ++ after) signs ↔
      ∀ question ∈ seeking previous next signs,
        (question.2 = true ↔
          question.1 ∈ next :: new ∨ question.1 ∈ restOfLine after) := by
  induction signs generalizing previous with
  | nil =>
      constructor
      · intro _ question member
        cases member
      · exact fun _ => trivial
  | cons sign others inductionHypothesis =>
      rw [Answered, seeking, List.forall_mem_append,
        inductionHypothesis known.2]
      apply and_congr_left'
      have here := known.1
      generalize others.map Sign.kind = between at here
      by_cases newline : .newline ∈ between
      · -- The line has ended before the change.
        rw [restOfLine_append_of_mem newline] at here ⊢
        simpa [newline] using here
      rw [restOfLine_append_of_notMem newline,
        restOfLine_append_of_notMem oldVisible] at here
      rw [restOfLine_append_of_notMem newline,
        restOfLine_append_of_notMem newVisible]
      have sameHead (kinds : List Kind) :
          mayOpen previous sign.kind (between ++ (next :: kinds)) =
            mayOpen previous sign.kind (between ++ [next]) :=
        mayOpen_congr (by cases between <;> rfl) _ _
      rw [List.cons_append, sameHead] at here
      rw [List.cons_append, sameHead]
      by_cases partner : sign.kind ∈ between
      · -- A partner stands before the change.
        simpa [partner] using here
      cases opened : sign.opened with
      | none => simp
      | some opened =>
          cases mayOpen previous sign.kind (between ++ [next]) <;>
            simp [newline, partner, or_assoc]

/-- Whether the delimiters that look past a place of a tree find what they found
before when a node stands there: those that opened a span find one of their kind
in the node or after it on the line, and those that opened none do not. -/
def Undisturbed
    (frames : List Frame)
    (opening : String)
    (node : Element) : Prop :=
  ∀ question ∈ seeking .endOfInput (Token.rawKind ⟨.delimiter, opening⟩)
      (signsBefore frames),
    (question.2 = true ↔
      question.1 ∈ node.leaves.map Token.rawKind ∨
        question.1 ∈ restOfLine ((signsAfter frames).map Sign.kind))

instance : Decidable (Undisturbed frames opening node) :=
  inferInstanceAs (Decidable (∀ question ∈ _, _))

/-- A text that can stand between the delimiters of a raw node. -/
structure Fits (closing content : String) : Prop where
  nonempty : content ≠ ""
  inside :
    ∀ character ∈ content.toList,
      character ≠ '\n' ∧ character.toString ≠ closing

/-- The node with a text between its delimiters. -/
def Element.raw
    (kind : Kind)
    (opening content closing : String) : Element :=
  .enclosed kind opening ((lex content).map .ofToken) closing

/-! ## Raw nodes of a source -/

/-- The tokens that a closed raw node is made of. -/
structure IsMadeOf
    (kind : Kind)
    (opening : String)
    (inside : List Element)
    (closing : String)
    (first : Token)
    (tokens : List Token)
    (last : Token) : Prop where
  encloses : Encloses kind first.kind last.kind
  opens : first.IsLexed ∧ first.text = opening
  closes : last.IsLexed ∧ last.text = closing
  inside : inside = tokens.map .ofToken

theorem IsMadeOf.of_enclosed
    {kind : Kind}
    {inside : List Element}
    {first last : Token}
    {tokens rest : List Token}
    (same : Element.leaf .delimiter opening :: inside ++
        [.leaf .delimiter closing] =
      .ofDelimiter first :: tokens.map .ofToken ++ [.ofDelimiter last])
    (encloses : Encloses kind first.kind last.kind)
    (lexed : AllLexed (first :: tokens ++ last :: rest)) :
    IsMadeOf kind opening inside closing first tokens last := by
  obtain ⟨opens, others⟩ := List.cons.inj same
  obtain ⟨content, closes⟩ := List.append_inj' others rfl
  exact ⟨encloses, ⟨lexed first (by simp), (Element.leaf.inj opens).2.symm⟩,
    ⟨lexed last (by simp), (Element.leaf.inj (List.cons.inj closes).1).2.symm⟩,
    content⟩

/-- A closed raw node is made of tokens between two delimiters of its kind. -/
theorem Production.exists_isMadeOf
    {kind : Kind}
    (production : Production kind
      (.leaf .delimiter opening :: inside ++ [.leaf .delimiter closing])
      following)
    (isRaw : kind ∈ [Kind.literal, .quotation, .parameters]) :
    ∃ first tokens last,
      IsMadeOf kind opening inside closing first tokens last := by
  generalize same : Element.leaf .delimiter opening :: inside ++
    [.leaf .delimiter closing] = children at production
  cases production with
  | atom lexed visible atom =>
      cases atom with
      | @span _ _ inside last _ _ isMark divided =>
          rw [Inline.splitAtClosing_append divided] at lexed
          refine ⟨_, inside, last, .of_enclosed same ?_ lexed⟩
          rw [Inline.kind_of_splitAtClosing divided]
          exact isMark.encloses.1
      | checkbox | textbox | tag | call | openCall | mention =>
          exact absurd isRaw (by decide)
  | @parameters name _ _ _ _ _ lexed visible atom =>
      generalize isTag : Element.node .hashtag
        [.ofToken name, .node .parameters children] = tag at atom
      cases atom with
      | @call inside _ first last _ isName isOpening all isClosing =>
          cases isTag
          refine ⟨first, inside, last, .of_enclosed same ?_ lexed.of_cons⟩
          rw [isOpening, isClosing]
          exact .parameters
      | @openCall tokens _ _ first isName isOpening all ended =>
          cases isTag
          have tokensLexed : AllLexed tokens := fun token member =>
            lexed token (by simp [member])
          refine absurd ?_ (Element.delimiter_notMem tokensLexed closing)
          rw [← (List.cons.inj same).2]
          simp
      | span isMark =>
          have isKind := (Element.node.inj isTag).1
          rw [← isKind] at isMark
          exact absurd isMark.encloses.1.mem (by decide)
      | _ => simp [Element.ofToken] at isTag
  | closed lexed isStyle | unclosed lexed isStyle =>
      exact absurd isRaw (Inline.notMem_of_style isStyle)
  | marked lexed marker => exact absurd isRaw marker.notMem
  | cell | row | table | codeBlock | paragraph | root =>
      exact absurd isRaw (by decide)

theorem mem_subtrees_plug
    (frames : List Frame)
    (element : Element) :
    element ∈ (plug frames element).subtrees := by
  induction frames with
  | nil => exact Element.self_mem_subtrees element
  | cons frame frames inductionHypothesis =>
      refine Element.subtreesOf_subset_subtrees_node _ _ ?_
      rw [Element.subtreesOf_append, Element.subtreesOf]
      simp [inductionHypothesis]

theorem Encloses.isSeparator
    {kind : Kind}
    {opening closing : Token}
    (encloses : Encloses kind opening.kind closing.kind)
    (opens : opening.IsLexed)
    (closes : closing.IsLexed) :
    opening.IsSeparator (Lexer.sign opening.kind) ∧
      closing.IsSeparator (Lexer.sign closing.kind) := by
  have separates {first last : Kind} (encloses : Encloses kind first last) :
      Lexer.separator? (Lexer.sign first) = some first ∧ first ≠ .newline ∧
        Lexer.separator? (Lexer.sign last) = some last ∧ last ≠ .newline := by
    cases encloses <;> decide
  obtain ⟨first, firstVisible, last, lastVisible⟩ := separates encloses
  exact ⟨opens.isSeparator first firstVisible,
    closes.isSeparator last lastVisible⟩

/-- No token of a text that fits ends a line or closes the node. -/
theorem Fits.tokens
    {last : Token}
    (fits : Fits last.text content)
    (separator : last.IsSeparator (Lexer.sign last.kind)) :
    ∀ token ∈ lex content,
      token.kind ≠ .newline ∧ token.kind ≠ last.kind := by
  have noFeed : '\n' ∉ content.toList :=
    fun member => (fits.inside _ member).1 rfl
  have noClosing : Lexer.sign last.kind ∉ content.toList :=
    fun member => (fits.inside _ member).2 separator.text.symm
  obtain ⟨_, _, _, _, _, isSign⟩ :=
    Lexer.not_run_of_separator separator.kind separator.visible
  exact fun token member =>
    ⟨ne_newline_of_mem_lex noFeed member,
      ne_kind_of_mem_lex isSign noClosing member⟩

/-- A closed raw node of a source, and a text that fits in it. -/
theorem exists_refilling
    {kind : Kind}
    {inside : List Element}
    (found : parse source =
      plug frames (.enclosed kind opening inside closing))
    (isRaw : kind ∈ [Kind.literal, .quotation, .parameters])
    (fits : Fits closing content) :
    ∃ refilling : Refilling,
      refilling.before = .enclosed kind opening inside closing ∧
        refilling.after = .raw kind opening content closing ∧
        refilling.new = lex content ∧ refilling.opening.IsLexed ∧
        refilling.closing.IsLexed := by
  have member := mem_subtrees_plug frames
    (.enclosed kind opening inside closing)
  rw [← found] at member
  obtain ⟨_, production⟩ := exists_production_of_mem_parse member
  obtain ⟨first, tokens, last, encloses, ⟨opens, rfl⟩, ⟨closes, rfl⟩, rfl⟩ :=
    production.exists_isMadeOf isRaw
  have nonempty : lex content ≠ [] := by
    intro empty
    have nothing := (Lexer.tokens_eq_nil_iff _).mp empty
    exact fits.nonempty (String.toList_eq_nil_iff.mp nothing)
  exact ⟨⟨kind, first, last, tokens, lex content, encloses, nonempty,
    fits.tokens (encloses.isSeparator opens closes).2, allLexed_lex content⟩,
    rfl, rfl, rfl, opens, closes⟩

/-! ## Answers around a raw node -/

/-- The tokens of a raw node and those after it are what the delimiters before it
see; no token in it looks for anything. -/
theorem answered_plug
    {kind : Kind}
    (open_ : ∀ frame ∈ frames, frame.kind.isVerbatim = false)
    (verbatim : kind.isVerbatim = true)
    (opening : String)
    (inside : List Element)
    (closing : String) :
    Answered .endOfInput []
        (Element.signs false
          (plug frames (.enclosed kind opening inside closing))) ↔
      Answered .endOfInput
          ((Element.enclosed kind opening inside closing).leaves.map
              Token.rawKind ++ (signsAfter frames).map Sign.kind)
          (signsBefore frames) ∧
        Answered (Token.rawKind ⟨.delimiter, closing⟩) []
          (signsAfter frames) := by
  have quiet : ∀ sign ∈ (Element.leavesOf (.leaf .delimiter opening :: inside ++
      [.leaf .delimiter closing])).map Element.hidden,
      sign.opened = none ∨ sign.kind.seeks = false := by
    intro sign member
    obtain ⟨leaf, _, rfl⟩ := List.mem_map.mp member
    exact .inl rfl
  have ends (previous : Kind) :
      lastKind previous ((Element.leavesOf (.leaf .delimiter opening :: inside ++
        [.leaf .delimiter closing])).map Element.hidden) =
      Token.rawKind ⟨.delimiter, closing⟩ := by
    rw [leavesOf_enclosed, List.map_append, lastKind_append]
    rfl
  rw [Element.enclosed, signs_plug open_, Element.signs_verbatim verbatim,
    Answered.append_iff, Answered.append_iff, ends, List.map_append,
    List.append_nil, List.map_map]
  exact and_congr_right' (and_iff_right (.of_quiet quiet))

/-- A new text in a raw node leaves all answers right exactly when the delimiters
that look past the node find what they found before. -/
theorem answered_iff_undisturbed
    {kind : Kind}
    (found : parse source =
      plug frames (.enclosed kind opening inside closing))
    (isRaw : kind ∈ [Kind.literal, .quotation, .parameters])
    (visible : ∀ leaf ∈ Element.leavesOf others, leaf.kind ≠ .newline) :
    Answered .endOfInput []
        (Element.signs false
          (plug frames (.enclosed kind opening others closing))) ↔
      Undisturbed frames opening (.enclosed kind opening others closing) := by
  have open_ := not_isVerbatim_of_plug found
  have both : kind.isVerbatim = true ∧ kind.isWithinLine = true := by
    simp only [List.mem_cons, List.not_mem_nil, or_false] at isRaw
    rcases isRaw with rfl | rfl | rfl <;> exact ⟨rfl, rfl⟩
  obtain ⟨verbatim, within⟩ := both
  have known := answered_parse source
  rw [found, answered_plug open_ verbatim] at known
  rw [answered_plug open_ verbatim, and_iff_left known.2]
  have member := mem_subtrees_plug frames
    (.enclosed kind opening inside closing)
  rw [← found] at member
  obtain ⟨_, production⟩ := exists_production_of_mem_parse member
  have oldVisible := newline_notMem_rawKinds (production.withinLine within)
  have newVisible : .newline ∉ (Element.leavesOf (.leaf .delimiter opening ::
      others ++ [.leaf .delimiter closing])).map Token.rawKind := by
    apply newline_notMem_rawKinds
    rw [leavesOf_enclosed]
    intro leaf member
    simp only [List.cons_append, List.mem_cons, List.mem_append,
      List.not_mem_nil, or_false] at member
    rcases member with rfl | inside | rfl
    · exact Kind.noConfusion
    · exact visible leaf inside
    · exact Kind.noConfusion
  exact answered_iff_of_answered known.1 oldVisible newVisible

/-! ## Refilled sources -/

theorem elements_plug
    (refilling : Refilling)
    (frames : List Frame)
    (others : List Element) :
    refilling.Elements (plug frames refilling.before :: others)
      (plug frames refilling.after :: others) := by
  induction frames generalizing others with
  | nil => exact .here
  | cons frame frames inductionHypothesis =>
      exact .inside ((inductionHypothesis frame.after).prepend frame.before)

/-- The refilled tokens are those of the refilled text. -/
theorem Refilling.lex_text
    (refilling : Refilling)
    (changed : refilling.Tokens (lex source) refilled)
    (made : refilling.new = lex content)
    (opens : refilling.opening.IsLexed)
    (closes : refilling.closing.IsLexed) :
    lex (String.join (refilled.map Token.text)) = refilled := by
  obtain ⟨front, back, whole, rfl⟩ := changed.exists_split
  obtain ⟨opening, closing⟩ := refilling.encloses.isSeparator opens closes
  obtain ⟨frontAlone, restAlone⟩ := Lexer.tokens_of_cut whole opening
  obtain ⟨_, backAlone⟩ := Lexer.tokens_of_cut restAlone closing
  have newAlone : Lexer.tokens (charactersOf refilling.new) = refilling.new := by
    rw [made]
    exact congrArg Lexer.tokens (Lexer.flatMap_text_tokens content.toList)
  rw [lex, String.toList_join, List.flatMap_map]
  change Lexer.tokens (charactersOf _) = _
  rw [List.cons_append, charactersOf_append opening, charactersOf_append closing,
    Lexer.tokens_append_of_separator opening,
    Lexer.tokens_append_of_separator closing, frontAlone, newAlone, backAlone]

/-- Tokens with a layout make the tree of their text, if they are its tokens. -/
theorem parse_of_layout
    (layout : Parse.Layout tokens elements)
    (lexes : lex (String.join (tokens.map Token.text)) = tokens) :
    parse (Element.node .root elements).text = .node .root elements := by
  have isText : (Element.node .root elements).text =
      String.join (tokens.map Token.text) := by
    obtain rfl := layout.eq_sections
    have text := (Parse.reads_sections tokens).join_text
    simpa [Element.text, Element.leaves] using text.symm
  rw [isText, parse, lexes, parseTokens, layout.eq_sections]

/-- A node of a source that has been refilled, with right answers around it. -/
theorem parse_plug_of_answered
    {refilling : Refilling}
    (found : parse source = plug (frame :: frames) refilling.before)
    (made : refilling.new = lex content)
    (opens : refilling.opening.IsLexed)
    (closes : refilling.closing.IsLexed)
    (answered : Answered .endOfInput []
      (Element.signs false (plug (frame :: frames) refilling.after))) :
    parse (plug (frame :: frames) refilling.after).text =
      plug (frame :: frames) refilling.after := by
  obtain ⟨isRoot, isSections⟩ := Element.node.inj found
  have layout := Parse.layout_sections (lex source)
  have changed := (elements_plug refilling frames frame.after).prepend frame.before
  rw [plug, ← isRoot, Element.signs_node rfl rfl] at answered
  rw [isSections] at layout
  have fresh : Parse.IsFresh .endOfInput := fun mark => rfl
  obtain ⟨refilled, inTokens, after⟩ := layout.refill changed
    (allLexed_lex source) (.inl fresh) answered
  rw [plug, ← isRoot]
  exact parse_of_layout after (refilling.lex_text inTokens made opens closes)

/-- Putting another text into a closed raw node of a source leaves everything
around it as it was exactly when the delimiters that look past the node find what
they found before. -/
theorem parse_raw_iff_undisturbed
    (source opening content closing : String)
    (kind : Kind)
    (frames : List Frame)
    (inside : List Element)
    (found : parse source =
      plug frames (.enclosed kind opening inside closing))
    (isRaw : kind ∈ [Kind.literal, .quotation, .parameters])
    (fits : Fits closing content) :
    parse (plug frames (.raw kind opening content closing)).text =
        plug frames (.raw kind opening content closing) ↔
      Undisturbed frames opening (.raw kind opening content closing) := by
  obtain ⟨refilling, before, after, made, opens, closes⟩ :=
    exists_refilling found isRaw fits
  have visible : ∀ leaf ∈ Element.leavesOf ((lex content).map .ofToken),
      leaf.kind ≠ .newline := by
    rw [Element.leavesOf_ofTokens, ← made]
    exact fun token member => (refilling.inside token member).1
  rw [Element.raw, ← answered_iff_undisturbed found isRaw visible]
  constructor
  · intro same
    rw [← same]
    exact answered_parse _
  · intro answered
    cases frames with
    | nil =>
        rw [← (Element.node.inj found).1] at isRaw
        exact absurd isRaw (by decide)
    | cons frame frames =>
        rw [← Element.raw, ← after] at answered ⊢
        rw [← before] at found
        exact parse_plug_of_answered found made opens closes answered

/-- The span around a literal finds its partner after it, so it is the same with
a delimiter of its own kind in the literal. -/
theorem parse_raw_iff_undisturbed_star :
    ∃ frames inside,
      parse "*a `b` c*\n" =
          plug frames (.enclosed .literal "`" inside "`") ∧
        (plug frames (.raw .literal "`" "*" "`")).text = "*a `*` c*\n" ∧
        parse "*a `*` c*\n" = plug frames (.raw .literal "`" "*" "`") := by
  let frames : List Frame :=
    [⟨.root, [], []⟩, ⟨.paragraph, [], [.leaf .newline "\n"]⟩,
      ⟨.bold,
        [.leaf .delimiter "*", .leaf .text "a", .leaf .whitespace " "],
        [.leaf .whitespace " ", .leaf .text "c", .leaf .delimiter "*"]⟩]
  have found : parse "*a `b` c*\n" =
      plug frames (.enclosed .literal "`" [.leaf .text "b"] "`") := by
    decide +kernel
  have text : (plug frames (.raw .literal "`" "*" "`")).text =
      "*a `*` c*\n" := by
    decide +kernel
  have same := (parse_raw_iff_undisturbed _ _ "*" _ _ _ _ found (by decide)
    ⟨by decide, by simp⟩).mpr (by decide +kernel)
  rw [text] at same
  exact ⟨frames, _, found, text, same⟩

/-- A delimiter without a partner finds one in the literal after it. -/
theorem raw_content_not_inert :
    ∃ frames inside,
      parse "*a `b` c\n" =
          plug frames (.enclosed .literal "`" inside "`") ∧
        Fits "`" "*" ∧
        (plug frames (.raw .literal "`" "*" "`")).text = "*a `*` c\n" ∧
        ∀ others, parse "*a `*` c\n" ≠
          plug frames (.enclosed .literal "`" others "`") := by
  refine ⟨[⟨.root, [], []⟩,
    ⟨.paragraph,
      [.leaf .star "*", .leaf .text "a", .leaf .whitespace " "],
      [.leaf .whitespace " ", .leaf .text "c", .leaf .newline "\n"]⟩],
    [.leaf .text "b"], by decide +kernel, ⟨by decide, by simp⟩,
    by decide +kernel, ?_⟩
  intro others
  have span : parse "*a `*` c\n" =
      .node .root [.node .paragraph
        [.node .bold
          [.leaf .delimiter "*", .leaf .text "a", .leaf .whitespace " ",
            .raw .literal "`" "*" "`", .leaf .whitespace " ", .leaf .text "c"],
          .leaf .newline "\n"]] := by
    decide +kernel
  rw [span]
  simp [plug]

end Markup
end NotePress
