import NotePress.Markup.Lexer

/-!
# Syntax trees

A syntax tree is lossless: its leaves, read from left to right, are the source.
A leaf may be several lexer tokens glued into one (the hashes that open a
heading) and may carry another kind than the lexer gave it.

`Element.locate` gives every element the range of source bytes it covers.
-/

namespace NotePress
namespace Markup

/-- A node or a leaf of a syntax tree. -/
inductive Element
  | leaf (kind : Kind) (text : String)
  | node (kind : Kind) (children : List Element)
  deriving Repr, Inhabited

namespace Element

/-- The leaf that holds a token unchanged. -/
def ofToken (token : Token) : Element :=
  .leaf token.kind token.text

/-- The leaf that holds a token which only delimits a construct. -/
def ofDelimiter (token : Token) : Element :=
  .leaf .delimiter token.text

/-- The kind of an element. -/
def kind : Element → Kind
  | leaf kind _ => kind
  | node kind _ => kind

/-- The elements directly below an element. -/
def children : Element → List Element
  | leaf _ _ => []
  | node _ children => children

mutual

/-- The leaves below an element, from left to right. -/
def leaves : Element → List Token
  | leaf kind text => [⟨kind, text⟩]
  | node _ children => leavesOf children

/-- The leaves below a list of elements, from left to right. -/
def leavesOf : List Element → List Token
  | [] => []
  | first :: others => leaves first ++ leavesOf others

end

/-- The source text an element covers. -/
def text (element : Element) : String :=
  String.join (element.leaves.map Token.text)

/-- The source text of the leaves that carry content. -/
def content (element : Element) : String :=
  String.join
    ((element.leaves.filter fun token => !token.kind.isMarkup).map Token.text)

end Element

/-- A syntax tree in which every element knows the bytes of the source that it
covers: those from `start` up to, but not including, `stop`. -/
inductive Located
  | leaf (kind : Kind) (start stop : Nat) (text : String)
  | node (kind : Kind) (start stop : Nat) (children : List Located)
  deriving Repr, Inhabited

namespace Located

/-- The first byte of an element. -/
def start : Located → Nat
  | leaf _ start _ _ => start
  | node _ start _ _ => start

/-- The byte after the last one of an element. -/
def stop : Located → Nat
  | leaf _ _ stop _ => stop
  | node _ _ stop _ => stop

end Located

namespace Element

mutual

/-- The ranges of an element that starts at a given byte. -/
def locate (start : Nat) : Element → Located
  | leaf kind text => .leaf kind start (start + text.utf8ByteSize) text
  | node kind children =>
      .node kind start (locateAll start children).2
        (locateAll start children).1

/-- The ranges of elements that follow one another from a given byte, and the
byte after the last of them. -/
def locateAll (start : Nat) : List Element → List Located × Nat
  | [] => ([], start)
  | first :: others =>
      let located := locate start first
      let rest := locateAll located.stop others
      (located :: rest.1, rest.2)

end

end Element

end Markup
end NotePress
