import NotePress.Markup.Writing
import NotePress.Proofs.Markup.CursorRuns

/-!
# What the rules do to a cursor

A cursor passes some tokens when it gets behind them and writes a block of events
that builds elements off them (`Cursor.Passes`). The steps of a cursor pass one
token, or several; a rule that opens a node, passes tokens and closes the node
passes these tokens with a node around what it built (`Cursor.Passes.around`).
-/

namespace NotePress
namespace Markup
namespace Cursor

/-! ## Looking ahead -/

section

variable {cursor : Cursor} {token : Token} {others : List Token}

/-- A look ahead finds the kind of a token that is left, or the end of the input. -/
theorem nth_eq
    (cursor : Cursor)
    (distance : Nat) :
    cursor.nth distance =
      cursor.rest[distance]?.elim .endOfInput Token.kind := by
  unfold nth rest
  rw [List.getElem?_drop]
  cases cursor.tokens[cursor.position + distance]? <;> rfl

/-- A look ahead finds the text of a token that is left, or nothing. -/
theorem nthText_eq
    (cursor : Cursor)
    (distance : Nat) :
    cursor.nthText distance = cursor.rest[distance]?.elim "" Token.text := by
  unfold nthText rest
  rw [List.getElem?_drop]
  cases cursor.tokens[cursor.position + distance]? <;> rfl

/-- A cursor is at the end when no token is left. -/
theorem atEnd_iff : cursor.atEnd = true ↔ cursor.rest = [] := by
  simp [atEnd, rest, List.drop_eq_nil_iff]

theorem atEnd_of_cons (next : cursor.rest = token :: others) :
    cursor.atEnd = false := by
  rw [← Bool.not_eq_true, atEnd_iff, next]
  exact List.cons_ne_nil _ _

theorem current_of_cons (next : cursor.rest = token :: others) :
    cursor.current = token.kind := by
  rw [current, nth_eq, next]
  rfl

theorem current_of_nil (ended : cursor.rest = []) :
    cursor.current = .endOfInput := by
  rw [current, nth_eq, ended]
  rfl

/-- A cursor is at a kind when the next token has it. -/
theorem isAt_of_cons
    (next : cursor.rest = token :: others)
    (kind : Kind) :
    cursor.isAt kind = (token.kind == kind) := by
  rw [isAt, current_of_cons next]

end

/-! ## Passing tokens -/

/-- A cursor gets behind some tokens and writes a block of events that builds
elements off them. -/
structure Passes
    (before after : Cursor)
    (taken : List Token)
    (elements : List Element) : Prop where
  sameTokens : after.tokens = before.tokens
  position : after.position = before.position + taken.length
  rest : before.rest = taken ++ after.rest
  written :
    ∃ block, after.events = before.events ++ block ∧
      Event.Builds taken block elements

namespace Passes

theorem refl (cursor : Cursor) : Passes cursor cursor [] [] :=
  ⟨rfl, rfl, rfl, [], (List.append_nil _).symm, .nil⟩

/-- What is passed in two steps is passed. -/
theorem trans
    {before middle after : Cursor}
    (first : Passes before middle taken elements)
    (second : Passes middle after more others) :
    Passes before after (taken ++ more) (elements ++ others) := by
  obtain ⟨front, frontWritten, frontBuilds⟩ := first.written
  obtain ⟨back, backWritten, backBuilds⟩ := second.written
  refine ⟨second.sameTokens.trans first.sameTokens, ?_, ?_, front ++ back, ?_,
    frontBuilds.append backBuilds⟩
  · rw [second.position, first.position, List.length_append, Nat.add_assoc]
  · rw [first.rest, second.rest, List.append_assoc]
  · rw [backWritten, frontWritten, List.append_assoc]

/-- What is left is what stands behind the tokens that are passed. -/
theorem rest_eq
    {before after : Cursor}
    (passes : Passes before after taken elements)
    (ahead : before.rest = taken ++ left) :
    after.rest = left :=
  List.append_cancel_left (passes.rest.symm.trans ahead)

/-- Behind one token there is what came after it. -/
theorem rest_of_single
    {before after : Cursor}
    (passes : Passes before after [token] elements)
    (ahead : before.rest = token :: left) :
    after.rest = left :=
  passes.rest_eq ahead

/-- Behind tokens that are passed there are fewer left. -/
theorem shorter
    {before after : Cursor}
    (passes : Passes before after taken elements)
    (nonempty : taken ≠ []) :
    after.rest.length < before.rest.length := by
  have positive := List.length_pos_iff.mpr nonempty
  rw [passes.rest, List.length_append]
  omega

/-- A node that was opened before the tokens were passed can be closed, which
changes nothing but the events. -/
theorem close
    {cursor inside : Cursor}
    (passes : Passes cursor.openNode.2 inside taken elements)
    (kind : Kind) :
    ∃ events,
      inside.closeNode? cursor.openNode.1 kind = some { inside with events } ∧
      Passes cursor { inside with events } taken [.node kind elements] := by
  obtain ⟨block, written, builds⟩ := passes.written
  simp only [openNode] at written
  have placed : inside.events[cursor.events.length]? = some .placeholder := by
    simp [written]
  refine ⟨_, if_pos placed, passes.sameTokens, passes.position, passes.rest,
    .start kind :: block ++ [.finish], ?_, builds.wrap kind⟩
  simp [openNode, written]

/-- A node around what a rule passes. -/
theorem around
    {cursor inside : Cursor}
    {rule : Cursor → Option Cursor}
    (passes : Passes cursor.openNode.2 inside taken elements)
    (ruled : rule cursor.openNode.2 = some inside)
    (kind : Kind) :
    ∃ events, cursor.around kind rule = some { inside with events } ∧
      Passes cursor { inside with events } taken [.node kind elements] := by
  obtain ⟨events, closed, whole⟩ := passes.close kind
  refine ⟨events, ?_, whole⟩
  rw [Cursor.around, ruled, Option.bind_eq_bind, Option.bind_some, closed]

/-- The kind of the token just read, when no token was passed. -/
theorem previous_of_nil
    {before after : Cursor}
    (passes : Passes before after [] elements) :
    after.previous = before.previous := by
  unfold Cursor.previous
  rw [passes.position, passes.sameTokens, List.length_nil, Nat.add_zero]

/-- The kind of the token just read is that of the last one passed. -/
theorem previous
    {before after : Cursor}
    (passes : Passes before after taken elements)
    (isLast : taken.getLast? = some token) :
    after.previous = token.kind := by
  obtain ⟨front, rfl⟩ := List.getLast?_eq_some_iff.mp isLast
  have position := passes.position
  rw [List.length_append, List.length_singleton, ← Nat.add_assoc] at position
  have found : before.rest[front.length]? = some token := by
    simp [passes.rest]
  rw [Cursor.rest, List.getElem?_drop] at found
  rw [Cursor.previous, position, passes.sameTokens]
  simp only [found]

/-- Behind one token, the kind just read is its own. -/
theorem previous_of_single
    {before after : Cursor}
    (passes : Passes before after [token] elements) :
    after.previous = token.kind :=
  passes.previous rfl

end Passes

/-- A rule has a result: the cursor passes some tokens with it, and something holds
of these tokens, of the elements built off them and of where the cursor stands
then. -/
def Yields
    (cursor : Cursor)
    (result : Option Cursor)
    (property : List Token → List Element → Cursor → Prop) : Prop :=
  ∃ next taken elements, result = some next ∧
    Passes cursor next taken elements ∧ property taken elements next

namespace Yields

variable {cursor : Cursor} {result : Option Cursor}
  {property other : List Token → List Element → Cursor → Prop}

theorem of_passes
    (passes : Passes cursor next taken elements)
    (holds : property taken elements next) :
    Yields cursor (some next) property :=
  ⟨next, taken, elements, rfl, passes, holds⟩

/-- A result with a property has every weaker property. -/
theorem mono
    (yields : Yields cursor result property)
    (implies : ∀ {taken elements next}, Passes cursor next taken elements →
      property taken elements next → other taken elements next) :
    Yields cursor result other := by
  obtain ⟨next, taken, elements, read, passes, holds⟩ := yields
  exact ⟨next, taken, elements, read, passes, implies passes holds⟩

/-- A rule after tokens that are passed already. -/
theorem after
    {middle : Cursor}
    (passes : Passes cursor middle front first)
    (yields : Yields middle result fun taken elements next =>
      property (front ++ taken) (first ++ elements) next) :
    Yields cursor result property := by
  obtain ⟨next, taken, elements, read, further, holds⟩ := yields
  exact ⟨next, _, _, read, passes.trans further, holds⟩

/-- Two rules, one after the other. -/
theorem bind
    {rule : Cursor → Option Cursor}
    (yields : Yields cursor result property)
    (further : ∀ {front first middle}, Passes cursor middle front first →
      property front first middle →
      Yields middle (rule middle) fun taken elements next =>
        other (front ++ taken) (first ++ elements) next) :
    Yields cursor (result >>= rule) other := by
  obtain ⟨middle, front, first, rfl, passes, holds⟩ := yields
  exact .after passes (further passes holds)

/-- A rule with a node around what it writes. -/
theorem around
    {rule : Cursor → Option Cursor}
    (yields : Yields cursor.openNode.2 (rule cursor.openNode.2) property)
    (kind : Kind)
    (implies : ∀ {taken elements inside} events,
      Passes cursor { inside with events } taken [.node kind elements] →
      property taken elements inside →
      other taken [.node kind elements] { inside with events }) :
    Yields cursor (cursor.around kind rule) other := by
  obtain ⟨inside, taken, elements, ruled, passes, holds⟩ := yields
  obtain ⟨events, read, whole⟩ := passes.around ruled kind
  exact ⟨_, taken, _, read, whole, implies events whole holds⟩

/-- Tokens that are passed with a node around them. -/
theorem of_node
    {rule : Cursor → Option Cursor}
    (passes : Passes cursor.openNode.2 inside taken elements)
    (ruled : rule cursor.openNode.2 = some inside)
    (kind : Kind)
    (holds : ∀ {next}, Passes cursor next taken [.node kind elements] →
      property taken [.node kind elements] next) :
    Yields cursor (cursor.around kind rule) property := by
  obtain ⟨events, read, whole⟩ := passes.around ruled kind
  exact ⟨_, taken, _, read, whole, holds whole⟩

end Yields

/-! ## Single steps -/

section

variable {cursor : Cursor} {token : Token} {others : List Token}

/-- Several tokens are passed as one leaf. -/
theorem passes_bumpMany
    (taken : List Token)
    (nonempty : taken ≠ [])
    (next : cursor.rest = taken ++ others)
    (kind : Kind) :
    Passes cursor (cursor.bumpMany taken.length kind) taken
      [.leaf kind (String.join (taken.map Token.text))] := by
  have count := congrArg List.length next
  rw [rest, List.length_drop, List.length_append] at count
  have positive := List.length_pos_iff.mpr nonempty
  rw [bumpMany, if_pos (by omega)]
  have left :
      cursor.tokens.drop (cursor.position + taken.length) = others := by
    rw [← List.drop_drop, ← rest, next, List.drop_left]
  exact ⟨rfl, rfl, next.trans (congrArg (taken ++ ·) left.symm), _, rfl,
    .glue kind taken⟩

/-- One token is passed as a leaf of some kind. -/
theorem passes_bumpAs
    (next : cursor.rest = token :: others)
    (kind : Kind) :
    Passes cursor (cursor.bumpAs kind) [token] [.leaf kind token.text] := by
  have passes := passes_bumpMany [token] (List.cons_ne_nil _ _) next kind
  rwa [List.length_singleton, ← bumpAs_eq_bumpMany, List.map_singleton,
    String.join_cons, String.join_nil, String.append_empty] at passes

/-- The first token of a node that is opened before it. -/
theorem passes_opening
    (next : cursor.rest = token :: others)
    (kind : Kind) :
    Passes cursor.openNode.2 (cursor.openNode.2.bumpAs kind) [token]
      [.leaf kind token.text] :=
  passes_bumpAs (show cursor.openNode.2.rest = token :: others from next) kind

/-- One token is passed as it is. -/
theorem passes_bump (next : cursor.rest = token :: others) :
    Passes cursor cursor.bump [token] [.ofToken token] := by
  rw [bump, current_of_cons next]
  exact passes_bumpAs next token.kind

/-- A token that is waited for is read if it comes next. -/
theorem eat_of_cons
    (next : cursor.rest = token :: others)
    (isKind : token.kind = kind) :
    (cursor.eat kind).2 = cursor.bump := by
  rw [eat, if_pos (by rw [isAt_of_cons next, isKind]; exact beq_self_eq_true _)]

/-- Where a token is waited for that does not come next, the cursor stays. -/
theorem eat_of_not_isAt (other : cursor.isAt kind = false) :
    (cursor.eat kind).2 = cursor := by
  rw [eat, if_neg (by simp [other])]

/-- Several tokens are passed as a leaf each. -/
theorem passes_bumpEach
    (leaf : Kind → Kind)
    (taken : List Token)
    (next : cursor.rest = taken ++ others) :
    Passes cursor (cursor.bumpEach leaf taken.length) taken
      (taken.map fun token => .leaf (leaf token.kind) token.text) := by
  induction taken generalizing cursor with
  | nil => exact .refl cursor
  | cons token taken inductionHypothesis =>
      have first := passes_bumpAs next (leaf cursor.current)
      have passes := first.trans (inductionHypothesis (first.rest_eq next))
      rw [current_of_cons next] at passes
      rw [List.length_cons, bumpEach, current_of_cons next]
      exact passes

/-- Tokens are read as far as their kinds pass the test. -/
theorem passes_bumpWhile
    (test : Kind → Bool)
    (leaf : Kind → Kind)
    (taken : List Token)
    (passing : ∀ token ∈ taken, test token.kind = true)
    (next : cursor.rest = taken ++ others)
    (stops : ∀ token ∈ others.head?, test token.kind = false) :
    ∃ last, cursor.bumpWhile test leaf = some last ∧
      Passes cursor last taken
        (taken.map fun token => .leaf (leaf token.kind) token.text) := by
  induction taken generalizing cursor with
  | nil =>
      refine ⟨cursor, ?_, .refl cursor⟩
      rw [bumpWhile]
      cases others with
      | nil => rw [atEnd_iff.mpr next]; rfl
      | cons token others =>
          rw [current_of_cons next, stops token rfl, Bool.not_false,
            Bool.or_true, if_pos rfl]
  | cons token taken inductionHypothesis =>
      obtain ⟨here, later⟩ := List.forall_mem_cons.mp passing
      have first := passes_bumpAs next (leaf cursor.current)
      obtain ⟨last, read, passes⟩ :=
        inductionHypothesis later (first.rest_eq next)
      refine ⟨last, ?_, ?_⟩
      · rw [bumpWhile, atEnd_of_cons next, current_of_cons next, here]
        rw [current_of_cons next] at read
        exact read
      · have whole := first.trans passes
        rwa [current_of_cons next] at whole

end

end Cursor
end Markup
end NotePress
