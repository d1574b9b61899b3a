import NotePress.Markup.Element

/-!
# The elements of a syntax tree

`Element.subtrees` lists an element and everything below it, an element before
what it holds and from left to right. Leaves are gathered the same way.
-/

namespace NotePress
namespace Markup
namespace Element

mutual

/-- An element and all elements below it. -/
def subtrees : Element → List Element
  | leaf kind text => [leaf kind text]
  | node kind children => node kind children :: subtreesOf children

/-- Some elements and all elements below them. -/
def subtreesOf : List Element → List Element
  | [] => []
  | first :: others => subtrees first ++ subtreesOf others

end

theorem self_mem_subtrees (element : Element) : element ∈ element.subtrees := by
  cases element <;> simp [subtrees]

theorem subtreesOf_append (first second : List Element) :
    subtreesOf (first ++ second) = subtreesOf first ++ subtreesOf second := by
  induction first with
  | nil => rfl
  | cons element others inductionHypothesis =>
      rw [List.cons_append, subtreesOf, subtreesOf, inductionHypothesis,
        List.append_assoc]

/-- The elements that are gathered are among the subtrees. -/
theorem mem_subtreesOf_of_mem
    {element : Element}
    {elements : List Element}
    (member : element ∈ elements) :
    element ∈ subtreesOf elements := by
  obtain ⟨before, after, rfl⟩ := List.append_of_mem member
  rw [subtreesOf_append, subtreesOf]
  simp [self_mem_subtrees]

/-- What is below the children of a node is below the node. -/
theorem subtreesOf_subset_subtrees_node
    (kind : Kind)
    (children : List Element) :
    subtreesOf children ⊆ subtrees (.node kind children) := by
  rw [subtrees]
  exact List.subset_cons_self _ _

theorem leavesOf_append (first second : List Element) :
    leavesOf (first ++ second) = leavesOf first ++ leavesOf second := by
  induction first with
  | nil => rfl
  | cons element others inductionHypothesis =>
      rw [List.cons_append, leavesOf, leavesOf, inductionHypothesis,
        List.append_assoc]

theorem leavesOf_ofTokens (tokens : List Token) :
    leavesOf (tokens.map .ofToken) = tokens := by
  induction tokens with
  | nil => rfl
  | cons token others inductionHypothesis =>
      rw [List.map_cons, leavesOf, inductionHypothesis]
      rfl

end Element
end Markup
end NotePress
