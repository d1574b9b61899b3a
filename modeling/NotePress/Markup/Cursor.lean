import NotePress.Markup.Event

/-!
# Cursors

A cursor reads a token list from left to right and writes down, as events, what
it read. Steps that are not possible (past the end, no token at all, more tokens
than are left) change nothing.
-/

namespace NotePress
namespace Markup

/-- A position in a token list with the events written so far. -/
structure Cursor where
  tokens : List Token
  position : Nat
  events : List Event

namespace Cursor

/-- The cursor before the first token. -/
def ofTokens (tokens : List Token) : Cursor :=
  ⟨tokens, 0, []⟩

/-- The kind of the token some places ahead. -/
def nth
    (cursor : Cursor)
    (distance : Nat) : Kind :=
  match cursor.tokens[cursor.position + distance]? with
  | some token => token.kind
  | none => .endOfInput

/-- The text of the token some places ahead; empty past the end. -/
def nthText
    (cursor : Cursor)
    (distance : Nat) : String :=
  match cursor.tokens[cursor.position + distance]? with
  | some token => token.text
  | none => ""

/-- The kind of the next token. -/
def current (cursor : Cursor) : Kind :=
  cursor.nth 0

/-- The lexer kind of the token just read. -/
def previous (cursor : Cursor) : Kind :=
  match cursor.position with
  | 0 => .endOfInput
  | before + 1 =>
      match cursor.tokens[before]? with
      | some token => token.kind
      | none => .endOfInput

/-- Whether all tokens are read. -/
def atEnd (cursor : Cursor) : Bool :=
  cursor.tokens.length ≤ cursor.position

/-- Whether the next token is of a kind. -/
def isAt
    (cursor : Cursor)
    (kind : Kind) : Bool :=
  cursor.current == kind

/-- Read the next token under another kind. -/
def bumpAs
    (cursor : Cursor)
    (kind : Kind) : Cursor :=
  if cursor.atEnd then
    cursor
  else
    { cursor with
      position := cursor.position + 1
      events := cursor.events ++ [.token kind 1] }

/-- Read the next token. -/
def bump (cursor : Cursor) : Cursor :=
  cursor.bumpAs cursor.current

/-- Read the next token if it is of a kind, and say whether it was. At the end
the kind `endOfInput` is found and nothing is read. -/
def eat
    (cursor : Cursor)
    (kind : Kind) : Bool × Cursor :=
  if cursor.isAt kind then
    (true, cursor.bump)
  else
    (false, cursor)

/-- Read several tokens as one leaf. -/
def bumpMany
    (cursor : Cursor)
    (count : Nat)
    (kind : Kind) : Cursor :=
  if 0 < count ∧ cursor.position + count ≤ cursor.tokens.length then
    { cursor with
      position := cursor.position + count
      events := cursor.events ++ [.token kind count] }
  else
    cursor

/-- Begin a node whose kind is told later. The mark says where it began. -/
def openNode (cursor : Cursor) : Nat × Cursor :=
  (cursor.events.length,
    { cursor with events := cursor.events ++ [.placeholder] })

/-- End the node that began at a mark, as a node of a kind. Refused when no node
of unknown kind began there. -/
def closeNode?
    (cursor : Cursor)
    (mark : Nat)
    (kind : Kind) : Option Cursor :=
  if cursor.events[mark]? = some .placeholder then
    some { cursor with
      events := cursor.events.set mark (.start kind) ++ [.finish] }
  else
    none

end Cursor

end Markup
end NotePress
