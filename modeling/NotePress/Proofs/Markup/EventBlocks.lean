import NotePress.Proofs.Markup.Reading

/-!
# Blocks of events

Events are a block when each node that is begun among them is ended among them. A
block that takes as many tokens as there are builds elements off these tokens,
wherever it is performed (`Balanced.exists_builds`, `Builds.performAll`); one that
begins a single node around everything builds a tree (`Builds.replay`).
-/

namespace NotePress
namespace Markup
namespace Event

/-- How many tokens some events take. -/
def tokensTaken : List Event → Nat
  | [] => 0
  | event :: others => event.tokenCount + tokensTaken others

@[simp] theorem tokensTaken_nil : tokensTaken [] = 0 := rfl

@[simp] theorem tokensTaken_cons
    (event : Event)
    (events : List Event) :
    tokensTaken (event :: events) = event.tokenCount + tokensTaken events :=
  rfl

@[simp] theorem tokensTaken_append (first second : List Event) :
    tokensTaken (first ++ second) = tokensTaken first + tokensTaken second := by
  induction first with
  | nil => simp
  | cons event others inductionHypothesis =>
      rw [List.cons_append, tokensTaken_cons, inductionHypothesis,
        tokensTaken_cons, Nat.add_assoc]

/-! ## Balanced events -/

/-- Events in which each node that begins also ends, and no other node ends. -/
inductive Balanced : List Event → Prop
  | nil : Balanced []
  | token (kind : Kind) (count : Nat) :
      Balanced events →
      Balanced (.token kind count :: events)
  | node (kind : Kind) :
      Balanced inside →
      Balanced events →
      Balanced (.start kind :: inside ++ .finish :: events)

namespace Balanced

theorem append
    (front : Balanced first)
    (back : Balanced second) :
    Balanced (first ++ second) := by
  induction front with
  | nil => exact back
  | token kind count _ inductionHypothesis =>
      exact .token kind count inductionHypothesis
  | node kind inside _ _ inductionHypothesis =>
      rw [List.append_assoc, List.cons_append]
      exact .node kind inside inductionHypothesis

theorem single
    (kind : Kind)
    (count : Nat) :
    Balanced [.token kind count] :=
  .token kind count .nil

/-- A node around a block is a block. -/
theorem wrap
    (inside : Balanced events)
    (kind : Kind) :
    Balanced (.start kind :: events ++ [.finish]) :=
  .node kind inside .nil

end Balanced

/-! ## What events build -/

/-- The elements that events build off all of some tokens. -/
inductive Builds : List Token → List Event → List Element → Prop
  | nil : Builds [] [] []
  | token (kind : Kind) (taken : List Token) :
      Builds tokens events elements →
      Builds (taken ++ tokens) (.token kind taken.length :: events)
        (.leaf kind (String.join (taken.map Token.text)) :: elements)
  | node (kind : Kind) :
      Builds taken inside children →
      Builds tokens events elements →
      Builds (taken ++ tokens) (.start kind :: inside ++ .finish :: events)
        (.node kind children :: elements)

namespace Builds

/-- What blocks side by side build is what each of them builds. -/
theorem append
    (front : Builds taken first children)
    (back : Builds tokens second elements) :
    Builds (taken ++ tokens) (first ++ second) (children ++ elements) := by
  induction front with
  | nil => exact back
  | token kind taken _ inductionHypothesis =>
      rw [List.append_assoc]
      exact .token kind taken inductionHypothesis
  | node kind inside _ _ inductionHypothesis =>
      rw [List.append_assoc, List.append_assoc, List.cons_append]
      exact .node kind inside inductionHypothesis

/-- Tokens that are glued into one leaf. -/
theorem glue
    (kind : Kind)
    (taken : List Token) :
    Builds taken [.token kind taken.length]
      [.leaf kind (String.join (taken.map Token.text))] := by
  have built := Builds.token kind taken .nil
  rwa [List.append_nil] at built

/-- A node around a block builds a node around what the block builds. -/
theorem wrap
    (inside : Builds tokens events children)
    (kind : Kind) :
    Builds tokens (.start kind :: events ++ [.finish])
      [.node kind children] := by
  have built := Builds.node kind inside .nil
  rwa [List.append_nil] at built

/-- Events that build something are a block. -/
theorem balanced (builds : Builds tokens events elements) :
    Balanced events := by
  induction builds with
  | nil => exact .nil
  | token kind taken _ inductionHypothesis =>
      exact .token kind _ inductionHypothesis
  | node kind _ _ inside outside => exact .node kind inside outside

/-- Events that build something take all the tokens. -/
theorem tokensTaken (builds : Builds tokens events elements) :
    tokensTaken events = tokens.length := by
  induction builds with
  | nil => rfl
  | token kind taken _ inductionHypothesis =>
      simp [tokenCount, inductionHypothesis]
  | node kind _ _ inside outside => simp [tokenCount, inside, outside]

/-- The elements have the text of the tokens. -/
theorem join_text (builds : Builds tokens events elements) :
    String.join ((Element.leavesOf elements).map Token.text) =
      String.join (tokens.map Token.text) := by
  induction builds with
  | nil => rfl
  | token kind taken _ inductionHypothesis =>
      simp [Element.leavesOf, Element.leaves, String.join_append,
        inductionHypothesis]
  | node kind _ _ inside outside =>
      simp [Element.leavesOf, Element.leaves, String.join_append, inside,
        outside]

/-- The events add the elements to the innermost open node, whatever else is
open. -/
theorem performAll
    (builds : Builds tokens events elements)
    (rest : List Token)
    (outside : List Element)
    (opened : List (Kind × List Element)) :
    performAll? ⟨tokens ++ rest, outside, opened⟩ events =
      some (Assembly.extend ⟨tokens ++ rest, outside, opened⟩ elements
        rest) := by
  induction builds generalizing rest outside opened with
  | nil => rfl
  | token kind taken _ inductionHypothesis =>
      rw [performAll?, perform?, if_pos (by simp), Assembly.extend_cons]
      simp only [List.append_assoc, List.drop_left, List.take_left]
      cases opened with
      | nil => exact inductionHypothesis _ _ _
      | cons innermost outer => exact inductionHypothesis _ _ _
  | node kind _ _ inner outer =>
      rw [List.cons_append, performAll?, perform?]
      simp only []
      rw [List.append_assoc, performAll_append, inner, Option.bind_some,
        Assembly.extend_opened, performAll?, perform?, Assembly.extend_cons]
      cases opened with
      | nil => exact outer _ _ _
      | cons innermost outermost => exact outer _ _ _

/-- Events that build a single node make a tree. -/
theorem replay (builds : Builds tokens events [.node kind children]) :
    replay? tokens events = some (.node kind children) := by
  have performed := builds.performAll [] [] []
  rw [List.append_nil] at performed
  rw [replay?, performed]
  rfl

end Builds

/-- A block that takes as many tokens as there are builds elements off them. -/
theorem Balanced.exists_builds
    (balanced : Balanced events)
    (tokens : List Token)
    (fits : tokensTaken events = tokens.length) :
    ∃ elements, Builds tokens events elements := by
  induction balanced generalizing tokens with
  | nil =>
      obtain rfl := List.length_eq_zero_iff.mp fits.symm
      exact ⟨[], .nil⟩
  | token kind count _ inductionHypothesis =>
      rw [tokensTaken_cons, tokenCount] at fits
      have whole : (tokens.take count).length = count := by
        rw [List.length_take]
        omega
      obtain ⟨elements, builds⟩ := inductionHypothesis (tokens.drop count)
        (by rw [List.length_drop]; omega)
      have built := Builds.token kind (tokens.take count) builds
      rw [List.take_append_drop, whole] at built
      exact ⟨_, built⟩
  | @node inside events kind _ _ inner outer =>
      simp only [tokensTaken_append, tokensTaken_cons, tokenCount,
        Nat.zero_add] at fits
      obtain ⟨children, within⟩ := inner (tokens.take (tokensTaken inside))
        (by rw [List.length_take]; omega)
      obtain ⟨elements, after⟩ := outer (tokens.drop (tokensTaken inside))
        (by rw [List.length_drop]; omega)
      have built := Builds.node kind within after
      rw [List.take_append_drop] at built
      exact ⟨_, built⟩

end Event
end Markup
end NotePress
