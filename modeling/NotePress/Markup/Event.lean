import NotePress.Markup.Element

/-!
# Trees as event sequences

A tree over a token list can be written as a flat sequence of events: a node
starts, a leaf takes the next tokens, a node ends. `Event.replay?` builds the
tree back. It refuses a sequence that takes more tokens than there are, ends a
node that was not started, or does not leave exactly one node. A node that was
started and never ended leaves no trace: what it holds belongs to the node around
it.
-/

namespace NotePress
namespace Markup

/-- A step in writing a tree from left to right. -/
inductive Event
  /-- A node begins. -/
  | start (kind : Kind)
  /-- The next `count` tokens are glued into one leaf. -/
  | token (kind : Kind) (count : Nat)
  /-- The innermost open node ends. -/
  | finish
  /-- A node whose kind is not known yet; it is left out of the tree. -/
  | placeholder
  deriving DecidableEq, Repr

namespace Event

/-- How many tokens an event takes. -/
def tokenCount : Event → Nat
  | token _ count => count
  | _ => 0

/-- A tree that is being built: the tokens not taken yet, the elements outside
every open node, and the open nodes, innermost first, with their elements. -/
structure Assembly where
  rest : List Token
  outside : List Element
  opened : List (Kind × List Element)

namespace Assembly

/-- Put an element at the end of the innermost open node. -/
def add
    (assembly : Assembly)
    (element : Element) : Assembly :=
  match assembly.opened with
  | [] => { assembly with outside := assembly.outside ++ [element] }
  | (kind, elements) :: outer =>
      { assembly with opened := (kind, elements ++ [element]) :: outer }

/-- All elements that are not below a finished node, from left to right. -/
def elements (assembly : Assembly) : List Element :=
  assembly.outside ++ assembly.opened.reverse.flatMap Prod.snd

end Assembly

/-- The effect of one event, if it is possible. -/
def perform? (assembly : Assembly) : Event → Option Assembly
  | start kind => some { assembly with opened := (kind, []) :: assembly.opened }
  | token kind count =>
      if count ≤ assembly.rest.length then
        some (Assembly.add
          { assembly with rest := assembly.rest.drop count }
          (.leaf kind
            (String.join ((assembly.rest.take count).map Token.text))))
      else
        none
  | finish =>
      match assembly.opened with
      | [] => none
      | (kind, elements) :: outer =>
          some (Assembly.add { assembly with opened := outer }
            (.node kind elements))
  | placeholder => some assembly

/-- The effect of a sequence of events, if all of them are possible. -/
def performAll? (assembly : Assembly) : List Event → Option Assembly
  | [] => some assembly
  | first :: others =>
      match perform? assembly first with
      | none => none
      | some next => performAll? next others

/-- The tree that a sequence of events builds over a token list. -/
def replay?
    (tokens : List Token)
    (events : List Event) : Option Element :=
  match performAll? ⟨tokens, [], []⟩ events with
  | none => none
  | some assembly =>
      match assembly.elements with
      | [.node kind children] => some (.node kind children)
      | _ => none

end Event

end Markup
end NotePress
