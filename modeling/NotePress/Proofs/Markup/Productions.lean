import NotePress.Proofs.Markup.Layout
import NotePress.Proofs.Markup.Subtrees

/-!
# Productions

Every node of a syntax tree comes about by a rule of the grammar. A production
says by which one: it holds the tokens that the rule was given and the derivation
of what is directly in the node. What is true of all nodes of a kind is then read
off the productions of that kind, and no other proof walks the tree.
-/

namespace NotePress
namespace Markup

/-! ## Elements and what follows them -/

namespace Element

mutual

/-- An element and all elements below it, each with the leaves that follow it. -/
def occurrences (following : List Token) : Element → List (Element × List Token)
  | leaf kind text => [(leaf kind text, following)]
  | node kind children =>
      (node kind children, following) :: occurrencesOf following children

/-- Some elements and all elements below them, each with the leaves that follow
it. -/
def occurrencesOf
    (following : List Token) : List Element → List (Element × List Token)
  | [] => []
  | first :: others =>
      occurrences (leavesOf others ++ following) first ++
        occurrencesOf following others

end

mutual

/-- The occurrences of an element are its subtrees. -/
theorem map_fst_occurrences (following : List Token) :
    ∀ element, (occurrences following element).map Prod.fst = element.subtrees
  | leaf kind text => rfl
  | node kind children => by
      rw [occurrences, subtrees, List.map_cons,
        map_fst_occurrencesOf following children]

theorem map_fst_occurrencesOf (following : List Token) :
    ∀ elements, (occurrencesOf following elements).map Prod.fst =
      subtreesOf elements
  | [] => rfl
  | first :: others => by
      rw [occurrencesOf, subtreesOf, List.map_append,
        map_fst_occurrences _ first, map_fst_occurrencesOf following others]

end

/-- Everything in a tree is followed by some leaves. -/
theorem exists_occurrence
    {element tree : Element}
    (member : element ∈ tree.subtrees) :
    ∃ following, (element, following) ∈ tree.occurrences [] := by
  rw [← map_fst_occurrences [] tree] at member
  obtain ⟨⟨found, following⟩, occurs, rfl⟩ := List.mem_map.mp member
  exact ⟨following, occurs⟩

/-- The leaves after the first of two pieces are those of the second piece and what
follows both. -/
theorem occurrencesOf_append
    (following : List Token)
    (first second : List Element) :
    occurrencesOf following (first ++ second) =
      occurrencesOf (leavesOf second ++ following) first ++
        occurrencesOf following second := by
  induction first with
  | nil => rfl
  | cons element others inductionHypothesis =>
      rw [List.cons_append, occurrencesOf, occurrencesOf, inductionHypothesis,
        leavesOf_append, List.append_assoc, List.append_assoc]

end Element

open Inline (Atom Derives IsRaw)
open Line (Cells CodeLines Ending IsFence Marker Row Rows)

/-! ## The rule that a node comes about by -/

/-- How a node with some children comes about when some leaves follow it. -/
inductive Production : Kind → List Element → List Token → Prop
  | atom :
      AllLexed (token :: rest) →
      token.kind ≠ .newline →
      Atom token rest (.node kind children) last after →
      Production kind children following
  | parameters :
      AllLexed (name :: rest) →
      name.kind ≠ .newline →
      Atom name rest (.node .hashtag [.ofToken name, .node .parameters children])
        last after →
      Production .parameters children following
  | closed :
      AllLexed (token :: rest) →
      token.kind.style? = some style →
      Derives (· == token.kind) token.kind rest content last
        (closing :: middle) →
      closing.kind = token.kind →
      Production style
        (.ofDelimiter token :: content ++ [.ofDelimiter closing]) following
  | unclosed :
      AllLexed (token :: rest) →
      token.kind.style? = some style →
      Inline.opens previous token.kind rest = true →
      Derives (· == token.kind) token.kind rest content last after →
      Line.atLineEnd after = true →
      Line.atLineEnd following = true →
      Production style (.ofDelimiter token :: content) following
  | cell :
      AllLexed tokens →
      Derives (· == .pipe) .pipe tokens content last rest →
      Production .tableCell content following
  | row :
      AllLexed (bar :: tokens) →
      Cells tokens parts middle →
      Ending middle ending rest →
      Production .tableRow (.ofDelimiter bar :: parts ++ ending) following
  | table :
      Row tokens row middle →
      Rows middle rows rest →
      Production .table (row :: rows) following
  | codeBlock {command : List Token} :
      IsFence ticks →
      CodeLines tokens others rest →
      Production .codeBlock
        (Line.glued .delimiter ticks :: command.map .ofToken ++ others) following
  | marked :
      AllLexed tokens →
      Marker tokens kind marker (blank :: middle) →
      blank.kind = .whitespace →
      Derives (fun _ => false) blank.kind middle content last left →
      Ending left ending rest →
      Production kind (marker :: .ofToken blank :: content ++ ending) following
  | paragraph :
      AllLexed tokens →
      Parse.Lines tokens children rest →
      Production .paragraph children following
  | root :
      AllLexed tokens →
      Parse.Layout tokens children →
      Production .root children following

/-- Elements all of whose nodes, and all nodes inside them, have productions. -/
def Produced
    (following : List Token)
    (elements : List Element) : Prop :=
  ∀ kind children after,
    (.node kind children, after) ∈ Element.occurrencesOf following elements →
      Production kind children after

namespace Produced

theorem nil (following : List Token) : Produced following [] := by
  intro kind children after member
  cases member

/-- The nodes of two pieces have productions when those of each piece have. -/
theorem append
    (front : Produced (Element.leavesOf second ++ following) first)
    (back : Produced following second) :
    Produced following (first ++ second) := by
  intro kind children after member
  rw [Element.occurrencesOf_append] at member
  rcases List.mem_append.mp member with here | later
  · exact front kind children after here
  · exact back kind children after later

theorem leaf
    (others : Produced following elements)
    (kind : Kind)
    (text : String) :
    Produced following (.leaf kind text :: elements) := by
  intro nodeKind children after member
  rw [Element.occurrencesOf, Element.occurrences] at member
  rcases List.mem_cons.mp member with here | later
  · cases here
  · exact others nodeKind children after later

/-- A node with a production may stand around children that have theirs. -/
theorem node
    (production : Production kind children following)
    (inside : Produced following children) :
    Produced following [.node kind children] := by
  intro innerKind inner after member
  rw [Element.occurrencesOf, Element.occurrencesOf, List.append_nil,
    Element.occurrences, Element.leavesOf, List.nil_append] at member
  rcases List.mem_cons.mp member with here | below
  · cases here
    exact production
  · exact inside innerKind inner after below

/-- Leaves hold no nodes. -/
theorem of_leaves
    {elements : List Element}
    (leaves : ∀ element ∈ elements, ∃ kind text, element = .leaf kind text)
    (following : List Token) :
    Produced following elements := by
  induction elements with
  | nil => exact nil following
  | cons first others inductionHypothesis =>
      obtain ⟨kind, text, rfl⟩ := leaves first List.mem_cons_self
      exact (inductionHypothesis fun element member =>
        leaves element (List.mem_cons_of_mem _ member)).leaf kind text

theorem ofTokens
    (tokens following : List Token) :
    Produced following (tokens.map .ofToken) := by
  apply of_leaves
  intro element member
  obtain ⟨token, _, rfl⟩ := List.mem_map.mp member
  exact ⟨_, _, rfl⟩

theorem ofDelimiters
    (tokens following : List Token) :
    Produced following (tokens.map .ofDelimiter) := by
  apply of_leaves
  intro element member
  obtain ⟨token, _, rfl⟩ := List.mem_map.mp member
  exact ⟨_, _, rfl⟩

/-- What stands between two delimiters. -/
theorem enclosed
    (inside : Produced (⟨.delimiter, closing.text⟩ :: following) elements) :
    Produced following
      (.ofDelimiter opening :: elements ++ [.ofDelimiter closing]) :=
  (inside.append ((nil following).leaf .delimiter closing.text)).leaf .delimiter
    opening.text

end Produced

/-! ## Elements within a line have productions -/

namespace Inline

/-- Elements with a derivation are made of the tokens that they were derived from. -/
theorem Derives.reads
    (derives : Derives stops previous tokens content last rest) :
    Reads tokens content rest := by
  obtain ⟨rfl, rfl, rfl⟩ := derives.isResult
  exact reads_elements stops previous tokens

/-- An atom leaves tokens after its own. -/
theorem Atom.suffix
    (atom : Atom token rest first last after) :
    after <:+ rest := by
  obtain ⟨rfl, rfl, rfl⟩ := atom.isResult
  exact (reads_simple token rest).suffix_of_length_le (Parsed.bounded _)

/-- The node of an atom, and what is in it, have productions. -/
theorem Atom.produced
    (atom : Atom token rest first last after)
    (lexed : AllLexed (token :: rest))
    (visible : token.kind ≠ .newline)
    (following : List Token) :
    Produced following [first] := by
  have whole := atom
  cases atom with
  | bare => exact .ofTokens [token] following
  | unmatched => exact .ofTokens [token] following
  | bracket => exact .ofTokens [token] following
  | span =>
      exact .node (.atom lexed visible whole)
        (Produced.enclosed (.ofTokens _ _))
  | checkbox =>
      exact .node (.atom lexed visible whole)
        (Produced.enclosed (.ofTokens [_] _))
  | textbox =>
      exact .node (.atom lexed visible whole)
        (Produced.enclosed (.ofDelimiters _ _))
  | tag =>
      exact .node (.atom lexed visible whole) (.ofTokens [token] following)
  | call =>
      apply Produced.node (.atom lexed visible whole)
      apply Produced.leaf
      exact .node (.parameters lexed visible whole) (Produced.enclosed (.ofTokens _ _))
  | openCall =>
      apply Produced.node (.atom lexed visible whole)
      apply Produced.leaf
      apply Produced.node (.parameters lexed visible whole)
      apply Produced.leaf
      exact .ofTokens _ _
  | mention =>
      exact .node (.atom lexed visible whole) (.ofTokens [token] following)

/-- No element starts with a line ending. -/
theorem ne_newline_of_goesOn
    (goesOn : stopsAt stops (token :: rest) = false) :
    token.kind ≠ .newline := by
  intro newline
  simp [stopsAt, newline] at goesOn

/-- Where the elements leave the end of the line, the leaves after them start at
one. -/
theorem Derives.produced
    (derives : Derives stops previous tokens content last rest)
    (lexed : AllLexed tokens)
    (following : List Token)
    (ends : Line.atLineEnd rest = true → Line.atLineEnd following = true) :
    Produced following content := by
  induction derives generalizing following with
  | done => exact .nil following
  | atom goesOn notStyle atom _ inductionHypothesis =>
      exact (atom.produced lexed (ne_newline_of_goesOn goesOn) _).append
        (inductionHypothesis (lexed.of_cons.of_suffix atom.suffix) following
          ends)
  | mark goesOn isStyle closed _ inductionHypothesis =>
      exact (inductionHypothesis lexed.of_cons following ends).leaf _ _
  | @closed stops token rest style previous content between closing middle
      others last after goesOn isStyle opened inside isClosing _ inInside
      inOthers =>
      have middleLexed : AllLexed (closing :: middle) :=
        lexed.of_cons.of_suffix inside.reads.suffix
      have open_ : Line.atLineEnd (closing :: middle) = false := by
        have visible := ne_newline_of_style isStyle
        simpa [Line.atLineEnd, isClosing] using visible
      refine Produced.append (.node (.closed lexed isStyle inside isClosing)
        (Produced.enclosed ?_)) (inOthers middleLexed.of_cons following ends)
      exact inInside lexed.of_cons _ (by
        rw [open_]
        intro impossible
        cases impossible)
  | unclosed goesOn isStyle opened inside ended inductionHypothesis =>
      apply Produced.node (.unclosed lexed isStyle opened inside ended
        (ends ended))
      exact (inductionHypothesis lexed.of_cons following ends).leaf _ _

end Inline

/-! ## Lines have productions -/

namespace Line

theorem Ending.suffix (ending : Ending left elements rest) :
    rest <:+ left := by
  cases ending with
  | taken => exact List.suffix_cons _ _
  | missing => exact List.suffix_refl _

/-- The leaves after the elements of a line start with its ending. -/
theorem Ending.atLineEnd_append
    (ending : Ending left elements rest)
    (ends : rest = [] → following = []) :
    Line.atLineEnd (Element.leavesOf elements ++ following) = true := by
  cases ending with
  | taken newline => simp [Element.leavesOf, Element.leaves, Element.ofToken,
      Line.atLineEnd, newline]
  | missing =>
      rw [ends rfl]
      rfl

/-- The ending of a line holds no nodes. -/
theorem Ending.produced
    (ending : Ending left elements rest)
    (following : List Token) :
    Produced following elements := by
  cases ending with
  | taken => exact .ofTokens [_] following
  | missing => exact .nil following

/-- Cells leave tokens after their own. -/
theorem Cells.suffix (cells : Cells tokens parts rest) :
    rest <:+ tokens := by
  obtain ⟨rfl, rfl⟩ := cells.leaves
  exact (reads_cells tokens).suffix

/-- Cells, and what is in them, have productions where a line ends after them. -/
theorem Cells.produced
    (cells : Cells tokens parts rest)
    (lexed : AllLexed tokens)
    (following : List Token)
    (ends : Line.atLineEnd following = true) :
    Produced following parts := by
  induction cells with
  | done => exact .nil following
  | blank => exact .ofTokens [_] following
  | @cell tokens content last bar middle others rest _ inside isPipe _
      inductionHypothesis =>
      have middleLexed : AllLexed (bar :: middle) :=
        lexed.of_suffix inside.reads.suffix
      have open_ : Line.atLineEnd (bar :: middle) = false := by
        simp [Line.atLineEnd, isPipe]
      refine Produced.append (.node (.cell lexed inside) ?_)
        ((inductionHypothesis middleLexed.of_cons).leaf .delimiter bar.text)
      exact inside.produced lexed _ (by
        rw [open_]
        intro impossible
        cases impossible)
  | lastCell _ inside =>
      exact .node (.cell lexed inside)
        (inside.produced lexed following fun _ => ends)

/-- A row has a production, and so has what is in it. -/
theorem Row.produced
    {element : Element}
    (row : Row tokens element rest)
    (lexed : AllLexed tokens)
    (following : List Token)
    (ends : rest = [] → following = []) :
    Produced following [element] := by
  cases row with
  | row isPipe cells ending =>
      apply Produced.node (.row lexed cells ending)
      apply Produced.leaf
      exact (cells.produced lexed.of_cons _
        (ending.atLineEnd_append ends)).append (ending.produced following)

theorem Row.suffix
    {element : Element}
    (row : Row tokens element rest) :
    rest <:+ tokens := by
  cases row with
  | row isPipe cells ending =>
      exact ending.suffix.trans
        (cells.suffix.trans (List.suffix_cons _ _))

theorem Rows.eq_nil (rows : Rows [] elements rest) :
    elements = [] ∧ rest = [] := by
  cases rows with
  | done => exact ⟨rfl, rfl⟩
  | next row => cases row

/-- After the last row nothing is left only where nothing follows. -/
theorem Rows.leavesOf_eq_nil
    (rows : Rows tokens elements rest)
    (ends : rest = [] → following = [])
    (nothing : tokens = []) :
    Element.leavesOf elements ++ following = [] := by
  subst nothing
  obtain ⟨rfl, rfl⟩ := rows.eq_nil
  rw [ends rfl]
  rfl

/-- Rows, and what is in them, have productions. -/
theorem Rows.produced
    (rows : Rows tokens elements rest)
    (lexed : AllLexed tokens)
    (following : List Token)
    (ends : rest = [] → following = []) :
    Produced following elements := by
  induction rows with
  | done => exact .nil following
  | next row rows inductionHypothesis =>
      exact (row.produced lexed _ (rows.leavesOf_eq_nil ends)).append
        (inductionHypothesis (lexed.of_suffix row.suffix) ends)

/-- The lines of a code block are leaves. -/
theorem CodeLines.isLeaf
    (lines : CodeLines tokens elements rest) :
    ∀ element ∈ elements, ∃ kind text, element = .leaf kind text := by
  obtain ⟨rfl, _⟩ := lines.leaves
  exact isLeaf_codeLines tokens

/-- A marker is a leaf. -/
theorem Marker.isLeaf (marker : Marker tokens kind element rest) :
    ∃ markerKind text, element = .leaf markerKind text := by
  cases marker with
  | heading => exact ⟨_, _, rfl⟩
  | unorderedItem => exact ⟨_, _, rfl⟩
  | orderedItem => exact ⟨_, _, rfl⟩

theorem Marker.suffix (marker : Marker tokens kind element rest) :
    rest <:+ tokens := by
  cases marker with
  | heading => exact List.suffix_append _ _
  | unorderedItem => exact List.suffix_cons _ _
  | orderedItem => exact List.suffix_cons _ _

theorem Block.suffix (block : Block tokens elements rest) :
    rest <:+ tokens := by
  obtain ⟨token, others, rfl⟩ := block.exists_cons
  obtain ⟨rfl, rfl⟩ := block.leaves
  exact (reads_line token others).suffix

/-- The nodes of a line, and what is in them, have productions. -/
theorem Block.produced
    (block : Block tokens elements rest)
    (lexed : AllLexed tokens)
    (following : List Token)
    (ends : rest = [] → following = []) :
    Produced following elements := by
  cases block with
  | marked marker isBlank derives ending =>
      obtain ⟨markerKind, text, rfl⟩ := marker.isLeaf
      apply Produced.node (.marked lexed marker isBlank derives ending)
      apply Produced.leaf
      apply Produced.leaf
      exact (derives.produced (lexed.of_suffix marker.suffix).of_cons _
        fun _ => ending.atLineEnd_append ends).append (ending.produced following)
  | table row rows =>
      apply Produced.node (.table row rows)
      exact (row.produced lexed _ (rows.leavesOf_eq_nil ends)).append
        (rows.produced (lexed.of_suffix row.suffix) following ends)
  | codeBlock isFence _ lines =>
      apply Produced.node (.codeBlock isFence lines)
      apply Produced.leaf
      exact (Produced.ofTokens _ _).append
        (.of_leaves lines.isLeaf following)
  | text _ derives ending =>
      exact (derives.produced lexed _ fun _ =>
        ending.atLineEnd_append ends).append (ending.produced following)

end Line

/-! ## Sources have productions -/

namespace Parse

theorem Lines.suffix (lines : Lines tokens elements rest) :
    rest <:+ tokens := by
  obtain ⟨token, others, rfl⟩ := lines.exists_cons
  obtain ⟨rfl, rfl⟩ := lines.leaves
  exact (reads_paragraphLines token others).suffix

/-- The nodes in the lines of a paragraph have productions. -/
theorem Lines.produced
    (lines : Lines tokens elements rest)
    (lexed : AllLexed tokens)
    (following : List Token)
    (ends : rest = [] → following = []) :
    Produced following elements := by
  induction lines with
  | last block => exact block.produced lexed following ends
  | next block goesOn _ inductionHypothesis =>
      exact (block.produced lexed _ fun nothing =>
        absurd nothing (Line.ne_nil_of_atVisible goesOn)).append
          (inductionHypothesis (lexed.of_suffix block.suffix) ends)

theorem Layout.eq_nil (layout : Layout [] elements) : elements = [] := by
  cases layout with
  | nil => rfl
  | paragraph visible => cases visible

/-- Every node of a layout has a production. -/
theorem Layout.produced
    (layout : Layout tokens elements)
    (lexed : AllLexed tokens) :
    Produced [] elements := by
  induction layout with
  | nil => exact .nil []
  | blank _ _ inductionHypothesis =>
      exact (inductionHypothesis lexed.of_cons).leaf _ _
  | paragraph _ lines layout inductionHypothesis =>
      refine Produced.append (.node (.paragraph lexed lines) ?_)
        (inductionHypothesis (lexed.of_suffix lines.suffix))
      apply lines.produced lexed
      rintro rfl
      rw [layout.eq_nil]
      rfl

end Parse

/-- Every node in the tree of a source has a production. -/
theorem production_of_mem_parse
    {source : String}
    {kind : Kind}
    {children : List Element}
    {following : List Token}
    (member : (.node kind children, following) ∈
      (parse source).occurrences []) :
    Production kind children following := by
  have layout := Parse.layout_sections (lex source)
  have lexed := allLexed_lex source
  rw [parse, parseTokens, Element.occurrences, List.mem_cons] at member
  rcases member with here | below
  · cases here
    exact .root lexed layout
  · exact layout.produced lexed kind children following below

/-- Every node in the tree of a source comes about by a rule, whatever follows it. -/
theorem exists_production_of_mem_parse
    {source : String}
    {kind : Kind}
    {children : List Element}
    (member : .node kind children ∈ (parse source).subtrees) :
    ∃ following, Production kind children following := by
  obtain ⟨following, occurs⟩ := Element.exists_occurrence member
  exact ⟨following, production_of_mem_parse occurs⟩

end Markup
end NotePress
