import NotePress.Markup.Cursor
import NotePress.Proofs.Markup.EventBlocks

/-!
# Runs of a cursor

Whatever is asked of a cursor, in any order, it stands behind as many tokens as the
events take that it has written. When it has read all tokens, and all that it has
written is one node, these events build a tree with the text of the tokens
(`run_sound`). The only thing that may not be asked is to close a node when none is
open; nodes are closed in the order opposite to that in which they were opened.
-/

namespace NotePress
namespace Markup

namespace Event

/-! ## What stands outside all nodes -/

/-- How many nodes are open after an event. -/
def depthAfter (depth : Nat) : Event → Nat
  | start _ => depth + 1
  | finish => depth - 1
  | _ => depth

/-- The events that stand outside all nodes, when some nodes are open already. -/
def outermost (depth : Nat) : List Event → List Event
  | [] => []
  | event :: others =>
      (if depth = 0 then [event] else []) ++
        outermost (event.depthAfter depth) others

/-- Nothing of a block stands outside the nodes around it. -/
theorem Balanced.outermost_append
    (balanced : Balanced events)
    (depth : Nat)
    (others : List Event) :
    outermost (depth + 1) (events ++ others) = outermost (depth + 1) others := by
  induction balanced generalizing depth others with
  | nil => rfl
  | token kind count _ inductionHypothesis =>
      exact inductionHypothesis depth others
  | node kind _ _ inside after =>
      rw [List.append_assoc, List.cons_append, outermost,
        if_neg (Nat.succ_ne_zero depth), List.nil_append, depthAfter, inside]
      exact after depth others

/-- What stands outside all nodes of a block that begins with a node. -/
theorem outermost_node
    (inside : Balanced events)
    (kind : Kind)
    (others : List Event) :
    outermost 0 (.start kind :: events ++ .finish :: others) =
      .start kind :: outermost 0 others := by
  rw [List.cons_append, outermost, if_pos rfl, depthAfter,
    inside.outermost_append]
  rfl

theorem Balanced.eq_nil
    (balanced : Balanced events)
    (nothing : outermost 0 events = []) :
    events = [] := by
  cases balanced with
  | nil => rfl
  | token kind count _ => cases nothing
  | node kind inside _ =>
      rw [outermost_node inside] at nothing
      cases nothing

/-- A block outside whose nodes only the start of a node stands is that node. -/
theorem Balanced.eq_wrap
    (balanced : Balanced events)
    (single : outermost 0 events = [.start kind]) :
    ∃ inside, Balanced inside ∧
      events = .start kind :: inside ++ [.finish] := by
  cases balanced with
  | nil => cases single
  | token kind count _ => cases single
  | @node inside others other within after =>
      rw [outermost_node within] at single
      obtain ⟨sameStart, nothing⟩ := List.cons.inj single
      cases sameStart
      rw [after.eq_nil nothing]
      exact ⟨inside, within, rfl⟩

/-- A block that is one node and takes all tokens makes a tree with their text. -/
theorem Balanced.exists_replay
    (balanced : Balanced events)
    (single : outermost 0 events = [.start kind])
    (whole : tokensTaken events = tokens.length) :
    ∃ children, replay? tokens events = some (.node kind children) ∧
      (Element.node kind children).text =
        String.join (tokens.map Token.text) := by
  obtain ⟨inside, within, rfl⟩ := balanced.eq_wrap single
  obtain ⟨children, builds⟩ := within.exists_builds tokens
    (by simpa [tokenCount] using whole)
  exact ⟨children, (builds.wrap kind).replay, builds.join_text⟩

/-! ## Events with places for nodes that are still open -/

/-- Blocks of events with a placeholder between any two of them, for nodes that
are not ended yet: their places, the innermost first. -/
inductive Unfinished : List Event → List Nat → Prop
  | balanced :
      Balanced events →
      Unfinished events []
  | opened :
      Unfinished before marks →
      Balanced after →
      Unfinished (before ++ .placeholder :: after) (before.length :: marks)

namespace Unfinished

theorem append
    (unfinished : Unfinished events marks)
    (block : Balanced more) :
    Unfinished (events ++ more) marks := by
  cases unfinished with
  | balanced balanced => exact .balanced (balanced.append block)
  | opened before after =>
      rw [List.append_assoc, List.cons_append]
      exact .opened before (after.append block)

theorem balanced_of_nil (unfinished : Unfinished events []) :
    Balanced events := by
  cases unfinished with
  | balanced balanced => exact balanced

/-- The innermost open node has a placeholder, and ending it leaves the other
nodes open. -/
theorem complete
    (unfinished : Unfinished events (mark :: marks))
    (kind : Kind) :
    events[mark]? = some .placeholder ∧
      Unfinished (events.set mark (.start kind) ++ [.finish]) marks ∧
      tokensTaken (events.set mark (.start kind) ++ [.finish]) =
        tokensTaken events := by
  cases unfinished with
  | @opened before _ after outer inside =>
      refine ⟨by simp, ?_, by simp [tokenCount]⟩
      rw [List.set_append_right _ _ (Nat.le_refl _), Nat.sub_self,
        List.set_cons_zero, List.append_assoc]
      exact outer.append (inside.wrap kind)

end Unfinished

end Event

namespace Cursor

open Event (tokensTaken Unfinished outermost)

/-! ## Operations -/

/-- What can be asked of a cursor. -/
inductive Operation
  /-- Ask for a kind or a text ahead or behind, or whether all tokens are read. -/
  | look
  | bump
  | eat (kind : Kind)
  | bumpAs (kind : Kind)
  | bumpMany (count : Nat) (kind : Kind)
  /-- Open a node. -/
  | start
  /-- Close the node that was opened last of those that are open. -/
  | complete (kind : Kind)

/-- How many nodes are open after an operation, unless it closes one when there is
none. -/
def Operation.levelAfter? (level : Nat) : Operation → Option Nat
  | start => some (level + 1)
  | complete _ =>
      match level with
      | 0 => none
      | outer + 1 => some outer
  | _ => some level

/-- A cursor with the marks of the nodes that are open, the innermost first. -/
structure Draft where
  cursor : Cursor
  opened : List Nat

namespace Draft

/-- The effect of an operation, if it is possible. -/
def perform? (draft : Draft) : Operation → Option Draft
  | .look => some draft
  | .bump => some { draft with cursor := draft.cursor.bump }
  | .eat kind => some { draft with cursor := (draft.cursor.eat kind).2 }
  | .bumpAs kind => some { draft with cursor := draft.cursor.bumpAs kind }
  | .bumpMany count kind =>
      some { draft with cursor := draft.cursor.bumpMany count kind }
  | .start =>
      some ⟨draft.cursor.openNode.2, draft.cursor.openNode.1 :: draft.opened⟩
  | .complete kind =>
      match draft.opened with
      | [] => none
      | mark :: outer =>
          (draft.cursor.closeNode? mark kind).map fun cursor => ⟨cursor, outer⟩

/-- What holds of a cursor whatever it was asked. -/
structure IsSound
    (tokens : List Token)
    (draft : Draft) : Prop where
  sameTokens : draft.cursor.tokens = tokens
  within : draft.cursor.position ≤ tokens.length
  counts : draft.cursor.position = tokensTaken draft.cursor.events
  events : Unfinished draft.cursor.events draft.opened

end Draft

theorem bumpAs_eq_bumpMany
    (cursor : Cursor)
    (kind : Kind) :
    cursor.bumpAs kind = cursor.bumpMany 1 kind := by
  unfold bumpAs bumpMany atEnd
  by_cases ended : cursor.tokens.length ≤ cursor.position
  · rw [if_pos (by simpa using ended), if_neg (by omega)]
  · rw [if_neg (by simpa using ended), if_pos (by omega)]

namespace Draft.IsSound

theorem ofTokens (tokens : List Token) :
    IsSound tokens ⟨Cursor.ofTokens tokens, []⟩ :=
  ⟨rfl, Nat.zero_le _, rfl, .balanced .nil⟩

section

variable {tokens : List Token} {draft : Draft}

/-- Reading some tokens, or none where that is not possible, keeps to the
tokens. -/
theorem bumpMany
    (sound : IsSound tokens draft)
    (count : Nat)
    (kind : Kind) :
    IsSound tokens
      { draft with cursor := draft.cursor.bumpMany count kind } := by
  obtain ⟨sameTokens, within, counts, events⟩ := sound
  unfold Cursor.bumpMany
  split
  · rename_i fits
    rw [sameTokens] at fits
    refine ⟨sameTokens, fits.2, ?_, events.append (.single kind count)⟩
    simp [Event.tokenCount, counts]
  · exact ⟨sameTokens, within, counts, events⟩

theorem bumpAs
    (sound : IsSound tokens draft)
    (kind : Kind) :
    IsSound tokens { draft with cursor := draft.cursor.bumpAs kind } := by
  rw [bumpAs_eq_bumpMany]
  exact sound.bumpMany 1 kind

theorem eat
    (sound : IsSound tokens draft)
    (kind : Kind) :
    IsSound tokens { draft with cursor := (draft.cursor.eat kind).2 } := by
  unfold Cursor.eat
  split
  · exact sound.bumpAs _
  · exact sound

theorem start (sound : IsSound tokens draft) :
    IsSound tokens
      ⟨draft.cursor.openNode.2, draft.cursor.openNode.1 :: draft.opened⟩ where
  sameTokens := sound.sameTokens
  within := sound.within
  counts := by simpa [openNode, Event.tokenCount] using sound.counts
  events := .opened sound.events .nil

/-- The innermost open node can be closed. -/
theorem complete
    {cursor : Cursor}
    (sound : IsSound tokens ⟨cursor, mark :: outer⟩)
    (kind : Kind) :
    ∃ closed, cursor.closeNode? mark kind = some closed ∧
      IsSound tokens ⟨closed, outer⟩ := by
  obtain ⟨placed, events, counts⟩ := sound.events.complete kind
  refine ⟨_, if_pos placed, sound.sameTokens, sound.within, ?_, events⟩
  exact sound.counts.trans counts.symm

/-- An operation that closes no node too many is possible, and all stays as it
should be. -/
theorem perform
    (sound : IsSound tokens draft)
    (operation : Operation)
    (inOrder : operation.levelAfter? draft.opened.length = some level) :
    ∃ next, draft.perform? operation = some next ∧ IsSound tokens next ∧
      next.opened.length = level := by
  cases operation with
  | look =>
      cases inOrder
      exact ⟨_, rfl, sound, rfl⟩
  | bump =>
      cases inOrder
      exact ⟨_, rfl, sound.bumpAs _, rfl⟩
  | eat kind =>
      cases inOrder
      exact ⟨_, rfl, sound.eat kind, rfl⟩
  | bumpAs kind =>
      cases inOrder
      exact ⟨_, rfl, sound.bumpAs kind, rfl⟩
  | bumpMany count kind =>
      cases inOrder
      exact ⟨_, rfl, sound.bumpMany count kind, rfl⟩
  | start =>
      cases inOrder
      exact ⟨_, rfl, sound.start, rfl⟩
  | complete kind =>
      obtain ⟨cursor, opened⟩ := draft
      cases opened with
      | nil => cases inOrder
      | cons mark outer =>
          cases inOrder
          obtain ⟨closed, isClosed, after⟩ := sound.complete kind
          exact ⟨⟨closed, outer⟩, by simp [perform?, isClosed], after, rfl⟩

/-- All of some operations that close no node too many are possible. -/
theorem performAll
    (sound : IsSound tokens draft)
    (operations : List Operation)
    (inOrder : operations.foldlM Operation.levelAfter? draft.opened.length =
      some level) :
    ∃ last, operations.foldlM perform? draft = some last ∧
      IsSound tokens last ∧ last.opened.length = level := by
  induction operations generalizing draft with
  | nil => exact ⟨draft, rfl, sound, Option.some.inj inOrder⟩
  | cons operation operations inductionHypothesis =>
      rw [List.foldlM_cons] at inOrder ⊢
      obtain ⟨between, first, others⟩ := Option.bind_eq_some_iff.mp inOrder
      obtain ⟨next, performed, nextSound, rfl⟩ := sound.perform operation first
      obtain ⟨last, rest⟩ := inductionHypothesis nextSound others
      exact ⟨last, Option.bind_eq_some_iff.mpr ⟨next, performed, rest.1⟩,
        rest.2⟩

end

end Draft.IsSound

/-- Operations on a cursor that starts before some tokens, of which none closes a
node when none is open, are all possible. The cursor does not get past the end of
the tokens, and it stands behind as many of them as its events take. If all tokens
are read and no node is open, and the start of one node is all that stands outside
the nodes, then the events make a tree that has the text of the tokens. -/
theorem run_sound
    (tokens : List Token)
    (operations : List Operation)
    (level : Nat)
    (inOrder : operations.foldlM Operation.levelAfter? 0 = some level) :
    ∃ last : Draft,
      operations.foldlM Draft.perform? ⟨ofTokens tokens, []⟩ = some last ∧
      last.opened.length = level ∧
      last.cursor.tokens = tokens ∧
      last.cursor.position ≤ tokens.length ∧
      last.cursor.position = tokensTaken last.cursor.events ∧
      ∀ kind,
        last.cursor.atEnd = true →
        level = 0 →
        outermost 0 last.cursor.events = [.start kind] →
        ∃ children,
          Event.replay? tokens last.cursor.events = some (.node kind children) ∧
          (Element.node kind children).text =
            String.join (tokens.map Token.text) := by
  obtain ⟨last, performed, sound, isLevel⟩ :=
    (Draft.IsSound.ofTokens tokens).performAll operations inOrder
  refine ⟨last, performed, isLevel, sound.sameTokens, sound.within,
    sound.counts, fun kind ended closed single => ?_⟩
  have whole : last.cursor.position = tokens.length := by
    rw [atEnd, sound.sameTokens, decide_eq_true_eq] at ended
    exact Nat.le_antisymm sound.within ended
  have noneOpen : last.opened = [] :=
    List.length_eq_zero_iff.mp (isLevel.trans closed)
  have balanced := (noneOpen ▸ sound.events).balanced_of_nil
  exact balanced.exists_replay single (sound.counts.symm.trans whole)

/-- A heading is read, with two steps in between that are not possible. -/
theorem run_sound_heading :
    List.foldlM Operation.levelAfter? 0
      [.start, .start, .bumpMany 1 .headingMarker, .eat .newline,
        .eat .whitespace, .bumpMany 3 .text, .bump, .complete .heading,
        .complete .root] = some 0 ∧
    ∃ last : Draft,
      List.foldlM Draft.perform?
        ⟨ofTokens [⟨.hash, "#"⟩, ⟨.whitespace, " "⟩, ⟨.text, "a"⟩], []⟩
        [.start, .start, .bumpMany 1 .headingMarker, .eat .newline,
          .eat .whitespace, .bumpMany 3 .text, .bump, .complete .heading,
          .complete .root] = some last ∧
      ∃ children,
        Event.replay? [⟨.hash, "#"⟩, ⟨.whitespace, " "⟩, ⟨.text, "a"⟩]
          last.cursor.events = some (.node .root children) ∧
        (Element.node .root children).text = String.join ["#", " ", "a"] := by
  have inOrder :
      List.foldlM Operation.levelAfter? 0
        [.start, .start, .bumpMany 1 .headingMarker, .eat .newline,
          .eat .whitespace, .bumpMany 3 .text, .bump, .complete .heading,
          .complete .root] = some 0 := rfl
  obtain ⟨last, performed, -, -, -, -, tree⟩ :=
    run_sound [⟨.hash, "#"⟩, ⟨.whitespace, " "⟩, ⟨.text, "a"⟩] _ 0 inOrder
  refine ⟨inOrder, last, performed, ?_⟩
  cases performed
  exact tree .root rfl rfl rfl

end Cursor
end Markup
end NotePress
