import NotePress.Proofs.Markup.Grammar
import NotePress.Proofs.Markup.Lexing

/-!
# Parsing is lossless

Every source has a syntax tree: one root, whose leaves are the source, in order
and without an empty leaf. The ranges that `Element.locate` gives the elements
leave no byte out, and the tree can be built from events over the tokens of the
source.
-/

namespace NotePress
namespace Markup

/-! ## Ranges without gaps -/

namespace Located

/-- Elements that follow one another from one byte to another. -/
inductive Adjacent : Nat → List Located → Nat → Prop
  | nil (place : Nat) : Adjacent place [] place
  | cons
      (first : Located) :
      Adjacent first.stop others last →
      Adjacent first.start (first :: others) last

/-- An element whose range is covered by the elements below it, down to leaves,
none of which is empty. -/
inductive Covered : Located → Prop
  | leaf
      (kind : Kind)
      (place : Nat)
      (text : String) :
      text ≠ "" →
      Covered (.leaf kind place (place + text.utf8ByteSize) text)
  | node (kind : Kind) :
      Adjacent place children last →
      (∀ child ∈ children, Covered child) →
      Covered (.node kind place last children)

end Located

namespace Element

/-- The number of bytes of the leaves of some elements. -/
def leafBytes : List Token → Nat
  | [] => 0
  | first :: others => first.text.utf8ByteSize + leafBytes others

theorem leafBytes_append (first second : List Token) :
    leafBytes (first ++ second) = leafBytes first + leafBytes second := by
  induction first with
  | nil => exact (Nat.zero_add _).symm
  | cons leaf others inductionHypothesis =>
      rw [List.cons_append, leafBytes, leafBytes, inductionHypothesis,
        Nat.add_assoc]

/-- Leaves are as long as the text they make up. -/
theorem leafBytes_eq_utf8ByteSize (leaves : List Token) :
    leafBytes leaves =
      (String.join (leaves.map Token.text)).utf8ByteSize := by
  induction leaves with
  | nil => rfl
  | cons leaf others inductionHypothesis =>
      rw [List.map_cons, String.join_cons, String.utf8ByteSize_append,
        ← inductionHypothesis, leafBytes]

/-- An element starts where it is put. -/
theorem start_locate
    (place : Nat)
    (element : Element) :
    (locate place element).start = place := by
  cases element <;> rfl

mutual

/-- An element stops after its leaves. -/
theorem stop_locate (place : Nat) :
    ∀ element, (locate place element).stop = place + leafBytes element.leaves
  | leaf kind text => by simp [locate, Located.stop, leaves, leafBytes]
  | node kind children => by
      simp only [locate, Located.stop, leaves]
      exact stop_locateAll place children

/-- Elements stop after their leaves. -/
theorem stop_locateAll (place : Nat) :
    ∀ elements,
      (locateAll place elements).2 = place + leafBytes (leavesOf elements)
  | [] => rfl
  | first :: others => by
      simp only [locateAll, leavesOf, leafBytes_append]
      rw [stop_locateAll, stop_locate, Nat.add_assoc]

end

/-- Elements that are put one after the other leave no gaps. -/
theorem adjacent_locateAll
    (place : Nat)
    (elements : List Element) :
    Located.Adjacent place (locateAll place elements).1
      (locateAll place elements).2 := by
  induction elements generalizing place with
  | nil => exact .nil place
  | cons first others inductionHypothesis =>
      have after := Located.Adjacent.cons (locate place first)
        (inductionHypothesis (locate place first).stop)
      rwa [start_locate] at after

mutual

/-- The range of an element is covered by the elements below it, when no leaf is
empty. -/
theorem covered_locate (place : Nat) :
    ∀ element, (∀ leaf ∈ element.leaves, leaf.text ≠ "") →
      (locate place element).Covered
  | leaf kind text, visible =>
      .leaf kind place text (visible ⟨kind, text⟩ (by simp [leaves]))
  | node kind children, visible =>
      .node kind (adjacent_locateAll place children)
        (covered_locateAll place children visible)

theorem covered_locateAll (place : Nat) :
    ∀ elements, (∀ leaf ∈ leavesOf elements, leaf.text ≠ "") →
      ∀ located ∈ (locateAll place elements).1, located.Covered
  | [], _ => by simp [locateAll]
  | first :: others, visible => by
      intro located member
      simp only [leavesOf, List.mem_append] at visible
      rw [locateAll, List.mem_cons] at member
      rcases member with rfl | later
      · exact covered_locate place first fun leaf inside =>
          visible leaf (.inl inside)
      · exact covered_locateAll _ others
          (fun leaf inside => visible leaf (.inr inside)) located later

end

end Element

/-! ## The tree of a source -/

theorem leaves_parse (source : String) :
    (parse source).leaves =
      Element.leavesOf (Parse.sections (lex source)) := rfl

/-- The leaves of the tree of a source are the source. -/
theorem text_parse (source : String) : (parse source).text = source := by
  have text := (Parse.reads_sections (lex source)).join_text
  rw [join_text_lex] at text
  simpa [Element.text, leaves_parse] using text.symm

/-- No leaf of the tree of a source is empty. -/
theorem text_ne_empty_of_mem_leaves_parse
    {source : String}
    {leaf : Token}
    (member : leaf ∈ (parse source).leaves) :
    leaf.text ≠ "" :=
  ((Parse.reads_sections (lex source)).leaves_ne_empty
    fun _ => text_ne_empty_of_mem_lex).1 leaf member

/-- Some events build the tree of a source from its tokens. -/
theorem exists_replay_parse (source : String) :
    ∃ events,
      (∀ kind count, .token kind count ∈ events →
        0 < count ∧ count ≤ maximalGlue) ∧
      Event.replay? (lex source) events = some (parse source) := by
  obtain ⟨events, counts, performed⟩ :=
    (Parse.reads_sections (lex source)).exists_events
  refine ⟨.start .root :: events ++ [.finish], ?_, ?_⟩
  · simpa using counts
  · unfold Event.replay?
    rw [List.cons_append, Event.performAll?, Event.perform?]
    simp only []
    rw [Event.performAll_append, performed, Event.Assembly.extend_opened]
    rfl

/-- The range of the tree of a source is the source. -/
theorem stop_locate_parse (source : String) :
    ((parse source).locate 0).stop = source.utf8ByteSize := by
  rw [Element.stop_locate, Element.leafBytes_eq_utf8ByteSize, Nat.zero_add]
  exact congrArg String.utf8ByteSize (text_parse source)

/-- Every source has a tree with one root, which keeps the whole source: the
texts of its leaves are the source, no leaf is empty, the elements below a node
follow one another over the range of the node, and the root covers all bytes.
The tree is what some events build from the tokens of the source, so building it
never fails. -/
theorem parse_lossless (source : String) :
    (∃ children, parse source = .node .root children) ∧
    (parse source).nodeKinds.count .root = 1 ∧
    (parse source).text = source ∧
    (∀ leaf ∈ (parse source).leaves, leaf.text ≠ "") ∧
    ((parse source).locate 0).Covered ∧
    ((parse source).locate 0).start = 0 ∧
    ((parse source).locate 0).stop = source.utf8ByteSize ∧
    ∃ events,
      (∀ kind count, .token kind count ∈ events →
        0 < count ∧ count ≤ maximalGlue) ∧
      Event.replay? (lex source) events = some (parse source) := by
  have visible : ∀ leaf ∈ (parse source).leaves, leaf.text ≠ "" :=
    fun leaf => text_ne_empty_of_mem_leaves_parse
  have innerKinds := (Parse.reads_sections (lex source)).root_notMem_nodeKindsOf
  refine ⟨⟨_, rfl⟩, ?_, text_parse source, visible,
    Element.covered_locate 0 _ visible, Element.start_locate 0 _,
    stop_locate_parse source, exists_replay_parse source⟩
  rw [parse, parseTokens, Element.nodeKinds, List.count_cons_self,
    List.count_eq_zero_of_not_mem innerKinds]

end Markup
end NotePress
