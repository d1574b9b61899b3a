import NotePress.Proofs.Markup.Members
import NotePress.Proofs.Markup.Tokens

/-!
# The grammar of syntax trees

Which nodes may stand in which, how nodes with a marker and styled spans begin
and end, and where line endings may be. Every tree of a source obeys this
(`parse_obeysGrammar`), so whoever walks a tree can rely on it.
-/

namespace NotePress
namespace Markup

/-! ## The grammar -/

namespace Kind

/-- The kinds of the nodes that take up a whole line or several. -/
def isBlock : Kind → Bool
  | heading | orderedItem | unorderedItem | table | codeBlock => true
  | _ => false

/-- The kinds of the nodes that lie within a line. -/
def isWithinLine (kind : Kind) : Bool :=
  kind.isInline || kind == tableCell || kind == parameters

/-- The kinds of the nodes that are one line with its ending. -/
def isOneLine : Kind → Bool
  | heading | orderedItem | unorderedItem | tableRow => true
  | _ => false

/-- Whether a node of a kind may stand directly in a node of another kind. -/
def holds (outer inner : Kind) : Bool :=
  match outer with
  | root => inner == paragraph
  | paragraph => inner.isBlock || inner.isInline
  | heading | orderedItem | unorderedItem | tableCell => inner.isInline
  | bold | italics | underline | strikeout => inner.isInline && inner != outer
  | table => inner == tableRow
  | tableRow => inner == tableCell
  | hashtag => inner == parameters
  | _ => false

/-- The kind of the marker that a node of a kind starts with. -/
def marker? : Kind → Option Kind
  | heading => some headingMarker
  | orderedItem => some orderedMarker
  | unorderedItem => some listMarker
  | _ => none

end Kind

namespace Element

/-- Whether an element is a leaf. -/
def isLeaf : Element → Bool
  | leaf _ _ => true
  | node _ _ => false

/-- Whether the first of some elements, if there is one, is a line ending. -/
def startWithEnding : List Element → Bool
  | [] => true
  | first :: _ => first.kind == .newline

/-- Whether the last leaf of some elements is a line ending. -/
def endWithEnding (elements : List Element) : Bool :=
  (leavesOf elements).getLast?.any (·.kind == .newline)

/-- Paragraphs and the tokens of blank lines between them. A paragraph ends with
its last line, and of a blank line there is a blank, a line ending, or both. -/
inductive AreSections : List Element → Prop
  | nil : AreSections []
  | paragraph {children : List Element} :
      others = [] ∨ endWithEnding children = true →
      AreSections others →
      AreSections (.node .paragraph children :: others)
  | ending {text : String} :
      AreSections others →
      AreSections (.leaf .newline text :: others)
  | blank {text : String} :
      startWithEnding others = true →
      AreSections others →
      AreSections (.leaf .whitespace text :: others)

/-- The children of a span of a style whose delimiter is a character, with the
leaves that follow the span. The span has no span of the same style and no
further delimiter of its own directly inside. A span without a closing delimiter
takes up the rest of its line, and one of its nodes has swallowed the
delimiter. -/
inductive IsSpan
    (style mark : Kind)
    (delimiter : Char) : List Element → List Token → Prop
  | closed {content : List Element} :
      (∀ child ∈ content, child.kind ∉ [style, mark, .delimiter]) →
      IsSpan style mark delimiter
        (.leaf .delimiter delimiter.toString :: content ++
          [.leaf .delimiter delimiter.toString]) following
  | unclosed {content : List Element} {swallowing : Element} :
      (∀ child ∈ content, child.kind ∉ [style, mark, .delimiter]) →
      Line.atLineEnd following = true →
      swallowing ∈ content →
      swallowing.isLeaf = false →
      delimiter ∈ swallowing.text.toList →
      IsSpan style mark delimiter
        (.leaf .delimiter delimiter.toString :: content) following

/-- What is true of every tree of a source. -/
structure ObeysGrammar (tree : Element) : Prop where
  root : tree.kind = .root
  sections : AreSections tree.children
  nesting :
    ∀ outer children, .node outer children ∈ tree.subtrees →
      ∀ inner grandchildren, .node inner grandchildren ∈ children →
        outer.holds inner = true
  markers :
    ∀ kind children, .node kind children ∈ tree.subtrees →
      ∀ marker, kind.marker? = some marker →
        ∃ text blank others, children =
          .leaf marker text :: .leaf .whitespace blank :: others
  spans :
    ∀ style children following,
      (.node style children, following) ∈ tree.occurrences [] →
        ∀ mark, mark.style? = some style →
          ∃ delimiter, Lexer.punctuation? delimiter = some mark ∧
            IsSpan style mark delimiter children following
  withinLines :
    ∀ kind children, .node kind children ∈ tree.subtrees →
      kind.isWithinLine = true →
        ∀ leaf ∈ leavesOf children, leaf.kind ≠ .newline
  oneLines :
    ∀ kind children, .node kind children ∈ tree.subtrees →
      kind.isOneLine = true →
        ∀ leaf ∈ (leavesOf children).dropLast, leaf.kind ≠ .newline

end Element

/-! ## Sections -/

namespace Element

/-- Elements end with a line ending when the last of them do. -/
theorem endWithEnding_append
    (ends : endWithEnding second = true)
    (first : List Element) :
    endWithEnding (first ++ second) = true := by
  unfold endWithEnding at ends ⊢
  rw [leavesOf_append, List.getLast?_append]
  cases last : (leavesOf second).getLast? with
  | none =>
      rw [last] at ends
      cases ends
  | some leaf =>
      rw [last] at ends
      exact ends

/-- A node ends with a line ending when its children do. -/
theorem endWithEnding_node
    (kind : Kind)
    (children : List Element) :
    endWithEnding [.node kind children] = endWithEnding children := by
  rw [endWithEnding, leavesOf, leavesOf, leaves, List.append_nil, endWithEnding]

theorem endWithEnding_ofToken (newline : token.kind = .newline) :
    endWithEnding [.ofToken token] = true := by
  simp [endWithEnding, leavesOf, leaves, ofToken, newline]

end Element

open Element (endWithEnding endWithEnding_append endWithEnding_node
  endWithEnding_ofToken AreSections IsSpan)

namespace Line

/-- A line is taken up to its ending unless it is the last one. -/
theorem takeLine_ends (tokens : List Token) :
    (takeLine tokens).2 = [] ∨
      ∃ before ending, (takeLine tokens).1 = before ++ [ending] ∧
        ending.kind = .newline := by
  induction tokens with
  | nil => exact .inl rfl
  | cons first others inductionHypothesis =>
      unfold takeLine
      split
      · rename_i newline
        exact .inr ⟨[], first, rfl, newline⟩
      · rcases inductionHypothesis with nothing | ⟨before, ending, line, newline⟩
        · exact .inl nothing
        · exact .inr ⟨first :: before, ending, by simp [line], newline⟩

/-- After the elements of a line comes its ending, or nothing comes after them. -/
theorem Ending.ends (ending : Ending left elements rest) :
    rest = [] ∨ endWithEnding elements = true := by
  cases ending with
  | taken newline => exact .inr (endWithEnding_ofToken newline)
  | missing => exact .inl rfl

/-- A row of a table ends with a line ending unless it is the last of the source. -/
theorem Row.ends
    {element : Element}
    (row : Row tokens element rest) :
    rest = [] ∨ endWithEnding [element] = true := by
  cases row with
  | row isPipe cells ending =>
      rw [endWithEnding_node]
      exact ending.ends.imp_right fun ends => endWithEnding_append ends _

/-- The rows of a table end with a line ending unless they end the source, when what
stands before them does. -/
theorem Rows.ends
    {front : List Element}
    (rows : Rows tokens elements rest)
    (before : tokens = [] ∨ endWithEnding front = true) :
    rest = [] ∨ endWithEnding (front ++ elements) = true := by
  induction rows generalizing front with
  | done => rwa [List.append_nil]
  | @next tokens row middle rows rest isRow _ inductionHypothesis =>
      have ends : rest = [] ∨ endWithEnding (front ++ [row] ++ rows) = true :=
        inductionHypothesis
          (isRow.ends.imp_right fun ends => endWithEnding_append ends front)
      rwa [List.append_assoc, List.singleton_append] at ends

/-- A line taken as leaves ends with a line ending, however its other tokens become
leaves. -/
theorem endWithEnding_map
    {leafOf : Token → Element}
    (keeps : ∀ token, token.kind = .newline → leafOf token = .ofToken token)
    (taken : takeLine tokens = (code, rest)) :
    rest = [] ∨ endWithEnding (code.map leafOf) = true := by
  have ends := takeLine_ends tokens
  rw [taken] at ends
  rcases ends with nothing | ⟨before, ending, rfl, newline⟩
  · exact .inl nothing
  · rw [List.map_append, List.map_singleton, keeps ending newline]
    exact .inr (endWithEnding_append (endWithEnding_ofToken newline) _)

/-- The line that closes a code block ends with a line ending unless it is the last
one. -/
theorem endWithEnding_closingLine (taken : takeLine tokens = (ending, rest)) :
    rest = [] ∨ endWithEnding (closingLine ending) = true :=
  endWithEnding_map (fun _ newline => if_pos newline) taken

/-- The lines of a code block end with a line ending unless the block ends the
source. -/
theorem CodeLines.ends (lines : CodeLines tokens elements rest) :
    rest = [] ∨ endWithEnding elements = true := by
  induction lines with
  | missing => exact .inl rfl
  | fence _ taken =>
      exact (endWithEnding_closingLine taken).imp_right fun ends =>
        endWithEnding_append ends [_]
  | line _ _ _ inductionHypothesis =>
      exact inductionHypothesis.imp_right fun ends => endWithEnding_append ends _

/-- The lines that belong together end with a line ending unless nothing comes
after them. -/
theorem Block.ends (block : Block tokens elements rest) :
    rest = [] ∨ endWithEnding elements = true := by
  cases block with
  | marked _ _ _ ending =>
      rw [endWithEnding_node]
      exact ending.ends.imp_right fun ends => endWithEnding_append ends _
  | table row rows =>
      rw [endWithEnding_node]
      exact rows.ends row.ends
  | codeBlock _ _ lines =>
      rw [endWithEnding_node]
      exact lines.ends.imp_right fun ends => endWithEnding_append ends _
  | text _ _ ending =>
      exact ending.ends.imp_right fun ends => endWithEnding_append ends _

end Line

namespace Parse

/-- The lines of a paragraph end with a line ending unless they end the source. -/
theorem Lines.ends (lines : Lines tokens elements rest) :
    rest = [] ∨ endWithEnding elements = true := by
  induction lines with
  | last block => exact block.ends
  | next _ _ _ inductionHypothesis =>
      exact inductionHypothesis.imp_right fun ends => endWithEnding_append ends _

/-- A layout of what starts with a blank line starts with its line ending. -/
theorem Layout.startWithEnding
    (layout : Layout tokens elements)
    (ended : Line.atLineEnd tokens = true) :
    Element.startWithEnding elements = true := by
  cases layout with
  | nil => rfl
  | blank => exact ended
  | paragraph visible =>
      rcases Line.eq_nil_or_newline_of_atLineEnd ended with
        rfl | ⟨ending, others, rfl, newline⟩
      · cases visible
      · simp [Line.atVisible, atBlankLine, newline] at visible

/-- A layout is of paragraphs and the tokens of blank lines. -/
theorem Layout.areSections (layout : Layout tokens elements) :
    AreSections elements := by
  induction layout with
  | nil => exact .nil
  | @blank token rest others blank layout inductionHypothesis =>
      simp only [atBlankLine, Bool.or_eq_true, Bool.and_eq_true, beq_iff_eq]
        at blank
      rcases blank with newline | ⟨space, ended⟩
      · rw [Element.ofToken, newline]
        exact .ending inductionHypothesis
      · rw [Element.ofToken, space]
        exact .blank (layout.startWithEnding ended) inductionHypothesis
  | paragraph _ lines layout inductionHypothesis =>
      refine .paragraph ?_ inductionHypothesis
      rcases lines.ends with rfl | ends
      · exact .inl layout.eq_nil
      · exact .inr ends

end Parse

/-! ## What stands directly in what -/

variable {inner : Kind}

/-- Leaves made of tokens have no node among them. -/
theorem not_node_of_mem_map
    {leafOf : Token → Element}
    (leaves : ∀ token, ∃ kind text, leafOf token = .leaf kind text)
    {tokens : List Token} :
    .node inner grandchildren ∉ tokens.map leafOf := by
  intro member
  obtain ⟨token, _, same⟩ := List.mem_map.mp member
  obtain ⟨kind, text, leaf⟩ := leaves token
  rw [leaf] at same
  cases same

theorem not_node_of_mem_ofTokens {tokens : List Token} :
    .node inner grandchildren ∉ tokens.map Element.ofToken :=
  not_node_of_mem_map fun _ => ⟨_, _, rfl⟩

theorem not_node_of_mem_ofDelimiters {tokens : List Token} :
    .node inner grandchildren ∉ tokens.map Element.ofDelimiter :=
  not_node_of_mem_map fun _ => ⟨_, _, rfl⟩

/-- No node is among leaves. -/
theorem not_node_of_leaves
    {elements : List Element}
    (leaves : ∀ element ∈ elements, ∃ kind text, element = .leaf kind text) :
    .node inner grandchildren ∉ elements := by
  intro member
  obtain ⟨kind, text, same⟩ := leaves _ member
  cases same

/-- A node between two delimiters is among what they enclose. -/
theorem mem_of_mem_enclosed
    {elements : List Element}
    (member : .node inner grandchildren ∈
      .ofDelimiter opening :: elements ++ [.ofDelimiter closing]) :
    .node inner grandchildren ∈ elements := by
  simpa [Element.ofDelimiter] using member

/-- A node after a delimiter is among what it opens. -/
theorem mem_of_mem_opened
    {elements : List Element}
    (member : .node inner grandchildren ∈ .ofDelimiter opening :: elements) :
    .node inner grandchildren ∈ elements := by
  simpa [Element.ofDelimiter] using member

namespace Inline

/-- A node among elements of a line is of an inline kind. -/
theorem IsMember.isInline
    (isMember : IsMember stops (.node inner grandchildren)) :
    inner.isInline = true := by
  cases isMember with
  | node inline => exact inline

/-- A span of a style holds no span of that style directly. -/
theorem IsMember.ne_style
    (isMember : IsMember (· == mark) (.node inner grandchildren))
    (isStyle : mark.style? = some style) :
    inner ≠ style := by
  rintro rfl
  cases isMember with
  | node _ unstopped => simpa using unstopped mark isStyle

/-- A styled span may hold whatever is derived up to its own delimiter. -/
theorem holds_of_style
    (isStyle : mark.style? = some style)
    (isMember : IsMember (· == mark) (.node inner grandchildren)) :
    style.holds inner = true := by
  have other := isMember.ne_style isStyle
  have inline := isMember.isInline
  cases mark <;> cases isStyle <;> simp [Kind.holds, inline, other]

/-- An atom holds only nodes of the kinds that may stand in it. -/
theorem Atom.holds
    (atom : Atom token rest (.node outer children) last after)
    (member : .node inner grandchildren ∈ children) :
    outer.holds inner = true := by
  cases atom with
  | span => exact absurd (mem_of_mem_enclosed member) not_node_of_mem_ofTokens
  | checkbox => simp [Element.ofDelimiter, Element.ofToken] at member
  | textbox =>
      exact absurd (mem_of_mem_enclosed member) not_node_of_mem_ofDelimiters
  | tag => simp [Element.ofToken] at member
  | call =>
      rcases List.mem_cons.mp member with impossible | here
      · cases impossible
      · cases List.mem_singleton.mp here
        rfl
  | openCall =>
      rcases List.mem_cons.mp member with impossible | here
      · cases impossible
      · cases List.mem_singleton.mp here
        rfl
  | mention => simp [Element.ofToken] at member

/-- A parameter list holds leaves only. -/
theorem Atom.not_node_of_parameters
    (atom : Atom name rest
      (.node .hashtag [.ofToken name, .node .parameters children]) last after) :
    .node inner grandchildren ∉ children := by
  intro member
  generalize same : Element.node .hashtag
    [.ofToken name, .node .parameters children] = first at atom
  cases atom with
  | call =>
      cases same
      exact not_node_of_mem_ofTokens (mem_of_mem_enclosed member)
  | openCall =>
      cases same
      exact not_node_of_mem_ofTokens (mem_of_mem_opened member)
  | span isRaw =>
      injection same with kinds
      generalize name.kind = sign at isRaw
      subst kinds
      cases isRaw
  | _ => simp [Element.ofToken] at same

end Inline

namespace Line

/-- No node is in the ending of a line. -/
theorem Ending.not_node (ending : Ending left elements rest) :
    .node inner grandchildren ∉ elements := by
  intro member
  cases ending with
  | taken => simp [Element.ofToken] at member
  | missing => cases member

/-- A row of a table holds cells and no other nodes. -/
theorem Cells.kind_eq
    (cells : Cells tokens parts rest)
    (member : .node inner grandchildren ∈ parts) :
    inner = .tableCell := by
  induction cells with
  | done => cases member
  | blank => simp [Element.ofToken] at member
  | cell _ _ _ _ inductionHypothesis =>
      simp only [List.mem_cons, Element.ofDelimiter, reduceCtorEq, false_or]
        at member
      rcases member with here | later
      · cases here
        rfl
      · exact inductionHypothesis later
  | lastCell =>
      cases List.mem_singleton.mp member
      rfl

/-- A row is read as a node of its own kind. -/
theorem Row.kind_eq
    (row : Row tokens (.node inner grandchildren) rest) :
    inner = .tableRow := by
  cases row with
  | row => rfl

/-- A table holds rows and no other nodes. -/
theorem Rows.kind_eq
    (rows : Rows tokens elements rest)
    (member : .node inner grandchildren ∈ elements) :
    inner = .tableRow := by
  induction rows with
  | done => cases member
  | next row _ inductionHypothesis =>
      rcases List.mem_cons.mp member with rfl | later
      · exact row.kind_eq
      · exact inductionHypothesis later

/-- What has a marker may hold every inline kind. -/
theorem Marker.holds
    (marker : Marker tokens outer element rest)
    (inline : inner.isInline = true) :
    outer.holds inner = true := by
  cases marker with
  | heading => exact inline
  | unorderedItem => exact inline
  | orderedItem => exact inline

/-- Only blocks have a marker in front. -/
theorem Marker.isBlock (marker : Marker tokens kind element rest) :
    kind.isBlock = true := by
  cases marker with
  | heading => rfl
  | unorderedItem => rfl
  | orderedItem => rfl

/-- The lines that belong together are of nodes that may stand in a paragraph. -/
theorem Block.holds
    (block : Block tokens elements rest)
    (lexed : AllLexed tokens)
    (member : .node inner grandchildren ∈ elements) :
    Kind.paragraph.holds inner = true := by
  rw [Kind.holds, Bool.or_eq_true]
  cases block with
  | marked marker =>
      cases List.mem_singleton.mp member
      exact .inl marker.isBlock
  | table =>
      cases List.mem_singleton.mp member
      exact .inl rfl
  | codeBlock =>
      cases List.mem_singleton.mp member
      exact .inl rfl
  | text _ derives ending =>
      rcases List.mem_append.mp member with inside | impossible
      · exact .inr (derives.isMember lexed _ inside).isInline
      · exact absurd impossible ending.not_node

end Line

namespace Parse

/-- Every line of a paragraph is of nodes that may stand in one. -/
theorem Lines.holds
    (lines : Lines tokens elements rest)
    (lexed : AllLexed tokens)
    (member : .node inner grandchildren ∈ elements) :
    Kind.paragraph.holds inner = true := by
  induction lines with
  | last block => exact block.holds lexed member
  | next block _ _ inductionHypothesis =>
      rcases List.mem_append.mp member with here | later
      · exact block.holds lexed here
      · exact inductionHypothesis (lexed.of_suffix block.suffix) later

/-- The nodes of a layout are paragraphs. -/
theorem Layout.kind_eq
    (layout : Layout tokens elements)
    (member : .node inner grandchildren ∈ elements) :
    inner = .paragraph := by
  induction layout with
  | nil => cases member
  | blank _ _ inductionHypothesis =>
      simp only [List.mem_cons, Element.ofToken, reduceCtorEq, false_or]
        at member
      exact inductionHypothesis member
  | paragraph _ _ _ inductionHypothesis =>
      rcases List.mem_cons.mp member with here | later
      · cases here
        rfl
      · exact inductionHypothesis later

end Parse

/-- A node stands only where its kind may. -/
theorem Production.holds
    (production : Production outer children following)
    (member : .node inner grandchildren ∈ children) :
    outer.holds inner = true := by
  cases production with
  | atom _ _ atom => exact atom.holds member
  | parameters _ _ atom => exact absurd member atom.not_node_of_parameters
  | closed lexed isStyle inside =>
      exact Inline.holds_of_style isStyle
        (inside.isMember lexed.of_cons _ (mem_of_mem_enclosed member))
  | unclosed lexed isStyle _ inside =>
      exact Inline.holds_of_style isStyle
        (inside.isMember lexed.of_cons _ (mem_of_mem_opened member))
  | cell lexed inside => exact (inside.isMember lexed _ member).isInline
  | row _ cells ending =>
      rcases List.mem_append.mp member with inside | impossible
      · rw [cells.kind_eq (mem_of_mem_opened inside)]
        rfl
      · exact absurd impossible ending.not_node
  | table row rows =>
      rcases List.mem_cons.mp member with rfl | later
      · rw [row.kind_eq]
        rfl
      · rw [rows.kind_eq later]
        rfl
  | codeBlock _ lines =>
      rcases List.mem_append.mp member with first | later
      · exact absurd (List.mem_of_ne_of_mem (by simp [Line.glued]) first)
          not_node_of_mem_ofTokens
      · exact absurd later (not_node_of_leaves lines.isLeaf)
  | marked lexed marker _ derives ending =>
      obtain ⟨markerKind, text, rfl⟩ := marker.isLeaf
      simp only [List.cons_append, List.mem_cons, Element.ofToken, reduceCtorEq,
        false_or, List.mem_append] at member
      rcases member with inside | impossible
      · exact marker.holds (derives.isMember
          (lexed.of_suffix marker.suffix).of_cons _ inside).isInline
      · exact absurd impossible ending.not_node
  | paragraph lexed lines => exact lines.holds lexed member
  | root _ layout =>
      rw [layout.kind_eq member]
      rfl

/-! ## Markers -/

/-- Nodes within a line have no marker. -/
theorem Kind.marker_of_isInline (inline : Kind.isInline kind = true) :
    kind.marker? = none := by
  cases kind <;> first | rfl | cases inline

/-- A node of a kind with a marker comes about by a marker and a blank. -/
theorem Production.exists_marker
    {marker : Kind}
    (production : Production kind children following)
    (isMarked : kind.marker? = some marker) :
    ∃ tokens leaf blank middle others,
      AllLexed tokens ∧ Line.Marker tokens kind leaf (blank :: middle) ∧
      blank.kind = .whitespace ∧
      children = leaf :: .ofToken blank :: others := by
  have notInline (inline : kind.isInline = true) : False := by
    rw [Kind.marker_of_isInline inline] at isMarked
    cases isMarked
  cases production with
  | atom _ _ atom => exact (notInline atom.inline.1).elim
  | closed _ isStyle => exact (notInline (Inline.isInline_of_style isStyle)).elim
  | unclosed _ isStyle =>
      exact (notInline (Inline.isInline_of_style isStyle)).elim
  | marked lexed isMarker isBlank =>
      exact ⟨_, _, _, _, _, lexed, isMarker, isBlank, rfl⟩
  | _ => cases isMarked

/-- A node of a kind with a marker starts with the marker and a blank after it. -/
theorem Production.marker
    {marker : Kind}
    (production : Production kind children following)
    (isMarked : kind.marker? = some marker) :
    ∃ text blank others,
      children = .leaf marker text :: .leaf .whitespace blank :: others := by
  obtain ⟨tokens, leaf, blank, middle, others, _, isMarker, isBlank, rfl⟩ :=
    production.exists_marker isMarked
  rw [Element.ofToken, isBlank]
  cases isMarker with
  | heading =>
      cases isMarked
      exact ⟨_, _, _, rfl⟩
  | unorderedItem =>
      cases isMarked
      exact ⟨_, _, _, rfl⟩
  | orderedItem =>
      cases isMarked
      exact ⟨_, _, _, rfl⟩

/-- A node of an inline kind that is no styled span comes about as an atom. -/
theorem Production.exists_atom
    (production : Production kind children following)
    (inline : kind.isInline = true)
    (unstyled : ∀ mark : Kind, mark.style? ≠ some kind) :
    ∃ token rest last after, AllLexed (token :: rest) ∧
      Inline.Atom token rest (.node kind children) last after := by
  cases production with
  | atom lexed _ atom => exact ⟨_, _, _, _, lexed, atom⟩
  | closed _ isStyle => exact absurd isStyle (unstyled _)
  | unclosed _ isStyle => exact absurd isStyle (unstyled _)
  | marked _ isMarker => cases isMarker <;> cases inline
  | _ => cases inline

/-! ## Styled spans -/

namespace Lexer

/-- The delimiter of a style is a character of its own. -/
theorem punctuation_sign_of_style (isStyle : Kind.style? kind = some style) :
    punctuation? (sign kind) = some kind := by
  cases kind <;> cases isStyle <;> rfl

end Lexer

/-- The lexer gives no token the kind of a node of a line. -/
theorem Token.IsLexed.not_inline
    {token : Token}
    (lexed : token.IsLexed) :
    token.kind.isInline = false := by
  cases lexed.spelling with
  | punctuation found =>
      unfold Lexer.punctuation? at found
      split at found <;> cases found <;> rfl
  | _ => rfl

namespace Inline

/-- What stands directly in a styled span is neither such a span nor such a
delimiter. -/
theorem IsMember.kind_notMem
    {child : Element}
    (isMember : IsMember (· == mark) child)
    (isStyle : mark.style? = some style) :
    child.kind ∉ [style, mark, .delimiter] := by
  simp only [List.mem_cons, List.not_mem_nil, or_false, not_or]
  cases isMember with
  | @token token lexed unstopped =>
      have other : token.kind ≠ mark := by simpa using unstopped
      refine ⟨?_, other, lexed.ne_delimiter⟩
      rintro rfl
      have inline := isInline_of_style isStyle
      rw [Element.ofToken, Element.kind, lexed.not_inline] at inline
      cases inline
  | @node kind children inline unstopped =>
      refine ⟨?_, ?_, ?_⟩
      · have bare : IsMember (· == mark) (.node kind []) :=
          .node inline unstopped
        exact bare.ne_style isStyle
      · rintro rfl
        cases kind <;> cases isStyle <;> cases inline
      · rintro rfl
        cases inline

/-- A delimiter that found a partner has it among the tokens up to the end of the
line. -/
theorem exists_partner
    (found : (splitAtClosing mark (consumed ++ after)).isSome = true)
    (ended : Line.atLineEnd after = true) :
    ∃ partner ∈ consumed, partner.kind = mark := by
  induction consumed with
  | nil =>
      rcases Line.eq_nil_or_newline_of_atLineEnd ended with
        rfl | ⟨ending, others, rfl, newline⟩
      · cases found
      · simp [splitAtClosing, newline] at found
  | cons first others inductionHypothesis =>
      by_cases isMark : first.kind = mark
      · exact ⟨first, List.mem_cons_self, isMark⟩
      · by_cases newline : first.kind = .newline
        · simp [splitAtClosing, newline] at found
        · rw [List.cons_append, splitAtClosing, if_neg newline, if_neg isMark,
            Option.isSome_map] at found
          obtain ⟨partner, member, isPartner⟩ := inductionHypothesis found
          exact ⟨partner, List.mem_cons_of_mem _ member, isPartner⟩

end Inline

namespace Element

/-- A leaf of some elements is a leaf of one of them. -/
theorem exists_child_of_mem_leavesOf
    {leaf : Token}
    {elements : List Element}
    (member : leaf ∈ leavesOf elements) :
    ∃ child ∈ elements, leaf ∈ child.leaves := by
  induction elements with
  | nil => cases member
  | cons first others inductionHypothesis =>
      rw [leavesOf] at member
      rcases List.mem_append.mp member with here | later
      · exact ⟨first, List.mem_cons_self, here⟩
      · obtain ⟨child, isChild, inside⟩ := inductionHypothesis later
        exact ⟨child, List.mem_cons_of_mem _ isChild, inside⟩

/-- The characters of a leaf are characters of the element it is in. -/
theorem mem_text_of_mem_leaves
    {leaf : Token}
    {element : Element}
    (member : leaf ∈ element.leaves)
    (character : Char)
    (inside : character ∈ leaf.text.toList) :
    character ∈ element.text.toList := by
  rw [text, String.toList_join, List.flatMap_map]
  exact List.mem_flatMap.mpr ⟨leaf, member, inside⟩

end Element

namespace Inline

/-- The content of a span that was opened but not closed has a node that holds the
delimiter which the span was opened for. -/
theorem exists_swallowing
    (lexed : AllLexed (token :: rest))
    (isStyle : token.kind.style? = some style)
    (opened : opens previous token.kind rest = true)
    (inside : Derives (· == token.kind) token.kind rest content last after)
    (ended : Line.atLineEnd after = true) :
    ∃ child ∈ content, child.isLeaf = false ∧
      Lexer.sign token.kind ∈ child.text.toList := by
  obtain ⟨consumed, rfl, spells⟩ := inside.spells
  rw [opens, Bool.and_eq_true] at opened
  obtain ⟨partner, isConsumed, isPartner⟩ := exists_partner opened.2 ended
  have partnerLexed : partner.IsLexed :=
    lexed partner (by simp [isConsumed])
  obtain ⟨leaf, isLeaf, became⟩ := spells.exists_leaf isConsumed
  obtain ⟨child, isChild, within⟩ :=
    Element.exists_child_of_mem_leavesOf isLeaf
  refine ⟨child, isChild, ?_, Element.mem_text_of_mem_leaves within _ ?_⟩
  · have isMember := inside.isMember lexed.of_cons child isChild
    have others := isMember.kind_notMem isStyle
    cases child with
    | node => rfl
    | leaf kind text =>
        simp only [Element.kind, List.mem_cons, List.not_mem_nil, or_false,
          not_or] at others
        cases List.mem_singleton.mp within
        rcases became.kind with same | delimiter
        · exact absurd (same.trans isPartner) others.2.1
        · exact absurd delimiter others.2.2
  · rw [became.text, partnerLexed.text_of_sign isPartner
      (Lexer.punctuation_sign_of_style isStyle)]
    simp

end Inline

/-- A node of a styled kind is a span: it opens with the delimiter of its style and
closes with it, or with nothing when a node inside swallowed the partner. -/
theorem Production.span
    (production : Production style children following)
    (isStyle : mark.style? = some style) :
    ∃ delimiter, Lexer.punctuation? delimiter = some mark ∧
      IsSpan style mark delimiter children following := by
  cases production with
  | atom _ _ atom => exact absurd isStyle (atom.inline.2 mark)
  | @closed token rest style content last closing middle _ lexed opened inside
      isClosing =>
      obtain rfl := Inline.style_injective opened isStyle
      have closingLexed : closing.IsLexed :=
        (lexed.of_cons.of_suffix inside.reads.suffix).head
      have found := Lexer.punctuation_sign_of_style isStyle
      refine ⟨_, found, ?_⟩
      rw [Element.ofDelimiter, Element.ofDelimiter,
        closingLexed.text_of_sign isClosing found,
        lexed.head.text_of_sign rfl found]
      exact .closed fun child member =>
        (inside.isMember lexed.of_cons child member).kind_notMem isStyle
  | @unclosed token rest style previous content last after _ lexed opened opens
      inside ended follows =>
      obtain rfl := Inline.style_injective opened isStyle
      have found := Lexer.punctuation_sign_of_style isStyle
      obtain ⟨swallowing, isChild, isNode, swallowed⟩ :=
        Inline.exists_swallowing lexed isStyle opens inside ended
      refine ⟨_, found, ?_⟩
      rw [Element.ofDelimiter, lexed.head.text_of_sign rfl found]
      exact .unclosed (fun child member =>
        (inside.isMember lexed.of_cons child member).kind_notMem isStyle)
        follows isChild isNode swallowed
  | marked _ marker =>
      cases marker <;> cases mark <;> cases isStyle
  | _ => cases mark <;> cases isStyle

/-! ## Line endings -/

/-- A node that lies within a line has no line ending in it. -/
theorem Production.withinLine
    (production : Production kind children following)
    (within : kind.isWithinLine = true) :
    ∀ leaf ∈ Element.leavesOf children, leaf.kind ≠ .newline := by
  cases production with
  | atom _ visible atom =>
      obtain ⟨_, _, spells⟩ := atom.spells visible
      exact spells.kind_ne_newline
  | parameters _ visible atom =>
      obtain ⟨_, _, spells⟩ := atom.spells visible
      intro leaf member
      apply spells.kind_ne_newline
      simp [Element.leaves, Element.leavesOf, member]
  | closed _ isStyle inside isClosing =>
      obtain ⟨_, _, spells⟩ := inside.spells
      have visible := Inline.ne_newline_of_style isStyle
      exact (spells.enclosed visible (isClosing ▸ visible)).kind_ne_newline
  | unclosed _ isStyle _ inside =>
      obtain ⟨_, _, spells⟩ := inside.spells
      exact ((Spells.ofDelimiter (Inline.ne_newline_of_style isStyle)).append
        spells).kind_ne_newline
  | cell _ inside =>
      obtain ⟨_, _, spells⟩ := inside.spells
      exact spells.kind_ne_newline
  | marked _ marker => cases marker <;> cases within
  | _ => cases within

namespace Line

/-- A line ending after leaves that are none is the last leaf. -/
theorem Ending.dropLast_append
    {before : List Token}
    (ending : Ending left elements rest)
    (line : ∀ leaf ∈ before, leaf.kind ≠ .newline) :
    ∀ leaf ∈ (before ++ Element.leavesOf elements).dropLast,
      leaf.kind ≠ .newline := by
  cases ending with
  | taken =>
      rw [Element.leavesOf, Element.leavesOf, Element.ofToken, Element.leaves,
        List.append_nil, List.dropLast_concat]
      exact line
  | missing =>
      rw [Element.leavesOf, List.append_nil]
      exact fun leaf member => line leaf (List.dropLast_subset before member)

/-- Cells of a table have no line ending in them. -/
theorem Cells.kind_ne_newline
    (cells : Cells tokens parts rest) :
    ∀ leaf ∈ Element.leavesOf parts, leaf.kind ≠ .newline := by
  induction cells with
  | done =>
      intro leaf member
      cases member
  | blank space =>
      intro leaf member
      rw [List.mem_singleton.mp member, space]
      decide
  | cell _ inside _ _ inductionHypothesis =>
      obtain ⟨_, _, spells⟩ := inside.spells
      intro leaf member
      rw [Element.leavesOf, Element.leavesOf, Element.leaves] at member
      rcases List.mem_append.mp member with here | later
      · exact spells.kind_ne_newline leaf here
      · rcases List.mem_cons.mp later with rfl | others
        · exact Kind.noConfusion
        · exact inductionHypothesis leaf others
  | lastCell _ inside =>
      obtain ⟨_, _, spells⟩ := inside.spells
      intro leaf member
      rw [Element.leavesOf, Element.leavesOf, List.append_nil] at member
      exact spells.kind_ne_newline leaf member

theorem Marker.kind_ne_newline
    (marker : Marker tokens kind (.leaf markerKind text) rest) :
    markerKind ≠ .newline := by
  cases marker <;> decide

end Line

/-- No inline node takes the ending of its line. -/
theorem Kind.not_isOneLine_of_isInline (inline : Kind.isInline kind = true) :
    kind.isOneLine = false := by
  cases kind <;> first | rfl | cases inline

/-- A node that is one line has no line ending but at its end. -/
theorem Production.oneLine
    (production : Production kind children following)
    (oneLine : kind.isOneLine = true) :
    ∀ leaf ∈ (Element.leavesOf children).dropLast, leaf.kind ≠ .newline := by
  have notInline (inline : kind.isInline = true) : False := by
    rw [Kind.not_isOneLine_of_isInline inline] at oneLine
    cases oneLine
  cases production with
  | atom _ _ atom => exact (notInline atom.inline.1).elim
  | closed _ isStyle => exact (notInline (Inline.isInline_of_style isStyle)).elim
  | unclosed _ isStyle =>
      exact (notInline (Inline.isInline_of_style isStyle)).elim
  | row _ cells ending =>
      rw [Element.leavesOf_append]
      apply ending.dropLast_append
      intro leaf member
      rcases List.mem_cons.mp member with rfl | later
      · exact Kind.noConfusion
      · exact cells.kind_ne_newline leaf later
  | marked _ marker isBlank derives ending =>
      obtain ⟨markerKind, text, rfl⟩ := marker.isLeaf
      obtain ⟨_, _, spells⟩ := derives.spells
      rw [Element.leavesOf_append]
      apply ending.dropLast_append
      intro leaf member
      rcases List.mem_cons.mp member with rfl | later
      · exact marker.kind_ne_newline
      · rcases List.mem_cons.mp later with rfl | others
        · rw [isBlank]
          decide
        · exact spells.kind_ne_newline leaf others
  | _ => cases oneLine

/-! ## Trees of sources -/

/-- Nodes of a source stand in each other as the grammar allows. -/
theorem holds_of_mem_parse
    (member : .node outer children ∈ (parse source).subtrees)
    (inside : .node inner grandchildren ∈ children) :
    outer.holds inner = true := by
  obtain ⟨_, production⟩ := exists_production_of_mem_parse member
  exact production.holds inside

/-- The tree of a source obeys the grammar of syntax trees. -/
theorem parse_obeysGrammar (source : String) :
    (parse source).ObeysGrammar := by
  refine ⟨rfl, ?_, ?_, ?_, ?_, ?_, ?_⟩
  · exact (Parse.layout_sections (lex source)).areSections
  · intro outer children member inner grandchildren
    exact holds_of_mem_parse member
  · intro kind children member marker isMarked
    obtain ⟨_, production⟩ := exists_production_of_mem_parse member
    exact production.marker isMarked
  · intro style children following occurs mark isStyle
    exact (production_of_mem_parse occurs).span isStyle
  · intro kind children member within
    obtain ⟨_, production⟩ := exists_production_of_mem_parse member
    exact production.withinLine within
  · intro kind children member oneLine
    obtain ⟨_, production⟩ := exists_production_of_mem_parse member
    exact production.oneLine oneLine

end Markup
end NotePress
