import NotePress.Markup.Event

/-!
# Reading elements off a token list

`Reads tokens elements rest` says that the elements are made of the tokens before
`rest`: every token stands in exactly one leaf, in order, and a leaf glues at
least one and at most `maximalGlue` of them. A root stands nowhere among the
nodes.

Such elements have the text of the tokens, and there is a sequence of events that
builds them from the tokens.
-/

namespace NotePress
namespace Markup

/-- The most tokens that one leaf may glue. -/
def maximalGlue : Nat := 255

/-- The elements that are made of the tokens in front of `rest`. -/
inductive Reads : List Token → List Element → List Token → Prop
  | done (tokens : List Token) : Reads tokens [] tokens
  | leaf
      (kind : Kind)
      (taken : List Token) :
      taken ≠ [] →
      taken.length ≤ maximalGlue →
      Reads middle others rest →
      Reads (taken ++ middle)
        (.leaf kind (String.join (taken.map Token.text)) :: others) rest
  | node (kind : Kind) :
      kind ≠ .root →
      Reads tokens children middle →
      Reads middle others rest →
      Reads tokens (.node kind children :: others) rest

namespace Reads

/-! ## Putting readings together -/

theorem append
    (front : Reads tokens first middle)
    (back : Reads middle second rest) :
    Reads tokens (first ++ second) rest := by
  induction front with
  | done tokens => exact back
  | leaf kind taken nonempty short _ inductionHypothesis =>
      exact .leaf kind taken nonempty short (inductionHypothesis back)
  | node kind inner children _ _ inductionHypothesis =>
      exact .node kind inner children (inductionHypothesis back)

/-- One element in front of others. -/
theorem cons
    (front : Reads tokens [first] middle)
    (back : Reads middle others rest) :
    Reads tokens (first :: others) rest :=
  front.append back

/-- A node around what was read. -/
theorem wrap
    (children : Reads tokens elements rest)
    (kind : Kind)
    (inner : kind ≠ .root) :
    Reads tokens [.node kind elements] rest :=
  .node kind inner children (.done rest)

/-- Tokens glued into one leaf. -/
theorem glue
    (kind : Kind)
    (taken rest : List Token)
    (nonempty : taken ≠ [])
    (short : taken.length ≤ maximalGlue) :
    Reads (taken ++ rest)
      [.leaf kind (String.join (taken.map Token.text))] rest :=
  .leaf kind taken nonempty short (.done rest)

/-- One token as a leaf of any kind. -/
theorem single
    (kind : Kind)
    (token : Token)
    (rest : List Token) :
    Reads (token :: rest) [.leaf kind token.text] rest := by
  have read := glue kind [token] rest (by simp) (by simp [maximalGlue])
  simpa using read

theorem ofToken
    (token : Token)
    (rest : List Token) :
    Reads (token :: rest) [.ofToken token] rest :=
  single token.kind token rest

theorem ofDelimiter
    (token : Token)
    (rest : List Token) :
    Reads (token :: rest) [.ofDelimiter token] rest :=
  single .delimiter token rest

/-- Tokens that become one leaf each. -/
theorem map
    (leafOf : Token → Element)
    (eachRead : ∀ token rest, Reads (token :: rest) [leafOf token] rest)
    (tokens rest : List Token) :
    Reads (tokens ++ rest) (tokens.map leafOf) rest := by
  induction tokens with
  | nil => exact .done rest
  | cons token tokens inductionHypothesis =>
      exact (eachRead token _).cons inductionHypothesis

theorem ofTokens (tokens rest : List Token) :
    Reads (tokens ++ rest) (tokens.map .ofToken) rest :=
  map .ofToken ofToken tokens rest

theorem ofDelimiters (tokens rest : List Token) :
    Reads (tokens ++ rest) (tokens.map .ofDelimiter) rest :=
  map .ofDelimiter ofDelimiter tokens rest

end Reads

/-! ## The text of what was read -/

namespace Element

end Element

namespace Reads

/-- What was read has the text of the tokens it was read off. -/
theorem join_text
    (read : Reads tokens elements rest) :
    String.join (tokens.map Token.text) =
      String.join ((Element.leavesOf elements).map Token.text) ++
        String.join (rest.map Token.text) := by
  induction read with
  | done tokens => simp [Element.leavesOf]
  | leaf kind taken _ _ _ inductionHypothesis =>
      simp [Element.leavesOf, Element.leaves, String.join_append,
        inductionHypothesis, String.append_assoc]
  | node kind _ _ _ children others =>
      simp [Element.leavesOf, Element.leaves, String.join_append, children,
        others, String.append_assoc]

/-- Off tokens with a text, only leaves with a text are read. -/
theorem leaves_ne_empty
    (read : Reads tokens elements rest)
    (visible : ∀ token ∈ tokens, token.text ≠ "") :
    (∀ leaf ∈ Element.leavesOf elements, leaf.text ≠ "") ∧
      ∀ token ∈ rest, token.text ≠ "" := by
  induction read with
  | done tokens => exact ⟨by simp [Element.leavesOf], visible⟩
  | leaf kind taken nonempty _ _ inductionHypothesis =>
      obtain ⟨others, after⟩ := inductionHypothesis fun token member =>
        visible token (List.mem_append_right taken member)
      refine ⟨?_, after⟩
      intro leaf member
      simp only [Element.leavesOf, Element.leaves, List.singleton_append,
        List.mem_cons] at member
      rcases member with rfl | member
      · obtain ⟨token, tokens, rfl⟩ := List.exists_cons_of_ne_nil nonempty
        have := visible token (by simp)
        simp [this]
      · exact others leaf member
  | node kind _ _ _ children others =>
      obtain ⟨inside, between⟩ := children visible
      obtain ⟨outside, after⟩ := others between
      refine ⟨?_, after⟩
      intro leaf member
      simp only [Element.leavesOf, Element.leaves, List.mem_append] at member
      exact member.elim (inside leaf) (outside leaf)

end Reads

/-! ## The nodes of what was read -/

namespace Element

mutual

/-- The kinds of the nodes of an element, a node before those inside it. -/
def nodeKinds : Element → List Kind
  | leaf _ _ => []
  | node kind children => kind :: nodeKindsOf children

/-- The kinds of the nodes of elements, from left to right. -/
def nodeKindsOf : List Element → List Kind
  | [] => []
  | first :: others => nodeKinds first ++ nodeKindsOf others

end

end Element

theorem Reads.root_notMem_nodeKindsOf
    (read : Reads tokens elements rest) :
    .root ∉ Element.nodeKindsOf elements := by
  induction read with
  | done tokens => simp [Element.nodeKindsOf]
  | leaf kind taken _ _ _ inductionHypothesis =>
      simpa [Element.nodeKindsOf, Element.nodeKinds] using inductionHypothesis
  | node kind inner _ _ children others =>
      simp only [Element.nodeKindsOf, Element.nodeKinds, List.cons_append,
        List.mem_cons, List.mem_append, not_or]
      exact ⟨inner.symm, children, others⟩

/-! ## Building what was read from events -/

namespace Event

theorem performAll_append
    (assembly : Assembly)
    (first second : List Event) :
    performAll? assembly (first ++ second) =
      (performAll? assembly first).bind (performAll? · second) := by
  induction first generalizing assembly with
  | nil => rfl
  | cons event others inductionHypothesis =>
      simp only [List.cons_append, performAll?]
      cases perform? assembly event with
      | none => rfl
      | some next => exact inductionHypothesis next

/-- An assembly to whose innermost open node elements were added, while the
tokens went down to some rest. -/
def Assembly.extend
    (assembly : Assembly)
    (elements : List Element)
    (rest : List Token) : Assembly :=
  elements.foldl Assembly.add { assembly with rest := rest }

theorem Assembly.extend_cons
    (assembly : Assembly)
    (first : Element)
    (others : List Element)
    (rest : List Token) :
    assembly.extend (first :: others) rest =
      (({ assembly with rest := rest } : Assembly).add first).extend others
        rest := by
  obtain ⟨before, outside, opened⟩ := assembly
  cases opened <;> rfl

/-- What is added between the start and the end of a node is inside it. -/
theorem Assembly.extend_opened
    (before : List Token)
    (outside : List Element)
    (kind : Kind)
    (inside : List Element)
    (outer : List (Kind × List Element))
    (elements : List Element)
    (rest : List Token) :
    (⟨before, outside, (kind, inside) :: outer⟩ : Assembly).extend elements
        rest =
      ⟨rest, outside, (kind, inside ++ elements) :: outer⟩ := by
  induction elements generalizing before inside with
  | nil => simp [extend]
  | cons first others inductionHypothesis =>
      rw [extend_cons]
      simp only [add]
      rw [inductionHypothesis]
      simp

end Event

/-- Some events build what was read: each token event takes at least one token
and no more than may be glued. -/
theorem Reads.exists_events
    (read : Reads tokens elements rest) :
    ∃ events,
      (∀ kind count, .token kind count ∈ events →
        0 < count ∧ count ≤ maximalGlue) ∧
      ∀ outside opened,
        Event.performAll? ⟨tokens, outside, opened⟩ events =
          some (Event.Assembly.extend ⟨tokens, outside, opened⟩ elements
            rest) := by
  -- The statement is about all that may be open around, since the events of a node are
  -- performed with the node open.
  induction read with
  | done tokens => exact ⟨[], by simp, fun outside opened => rfl⟩
  | @leaf middle others rest kind taken nonempty short _ inductionHypothesis =>
      obtain ⟨events, counts, performed⟩ := inductionHypothesis
      refine ⟨.token kind taken.length :: events, ?_, ?_⟩
      · intro otherKind count member
        rw [List.mem_cons] at member
        rcases member with here | later
        · injection here with _ equal
          exact equal ▸ ⟨List.length_pos_iff.mpr nonempty, short⟩
        · exact counts otherKind count later
      · intro outside opened
        rw [Event.performAll?, Event.perform?, if_pos (by simp),
          Event.Assembly.extend_cons]
        simp only [List.drop_left, List.take_left]
        cases opened with
        | nil => exact performed _ _
        | cons innermost outer => exact performed _ _
  | @node tokens children middle others rest kind _ _ _ inside after =>
      obtain ⟨childEvents, childCounts, childPerformed⟩ := inside
      obtain ⟨otherEvents, otherCounts, otherPerformed⟩ := after
      refine ⟨.start kind :: childEvents ++ .finish :: otherEvents, ?_, ?_⟩
      · intro otherKind count member
        simp only [List.cons_append, List.mem_cons, List.mem_append,
          reduceCtorEq, false_or] at member
        exact member.elim (childCounts otherKind count)
          (otherCounts otherKind count)
      · intro outside opened
        rw [List.cons_append, Event.performAll?, Event.perform?]
        simp only []
        rw [Event.performAll_append, childPerformed,
          Event.Assembly.extend_opened, Option.bind_some, Event.performAll?,
          Event.perform?, Event.Assembly.extend_cons]
        cases opened with
        | nil => exact otherPerformed _ _
        | cons innermost outer => exact otherPerformed _ _

end Markup
end NotePress
