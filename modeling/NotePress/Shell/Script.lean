import NotePress.Shell.Bytes

/-!
# Shell scripts

A script is a tree of commands. The words of a command are made of pieces, some
of which are known only when the command runs.
-/

namespace NotePress
namespace Shell

/-- What a redirection does with a stream. -/
inductive RedirectionKind
  | input
  | output
  /-- Output that may replace a file even if files are protected. -/
  | overwrite
  | append
  | update
  | duplicate
  | here
  deriving DecidableEq, Repr, Inhabited

mutual

/-- A part of a word. What is quoted is not cut into fields and stands for itself
in patterns. -/
inductive Piece
  | plain (text : Bytes)
  | quoted (text : Bytes)
  /-- What stands between double quotes. -/
  | group (pieces : List Piece)
  | parameter (quoted : Bool) (name : Bytes) (use : Use)
  | output (quoted : Bool) (script : Command)
  | arithmetic (quoted : Bool) (expression : List Piece)

/-- What is made of the value of a parameter. With `orEmpty`, an empty value
counts as no value. -/
inductive Use
  | value
  | length
  | otherwise (orEmpty : Bool) (word : List Piece)
  | assign (orEmpty : Bool) (word : List Piece)
  | demand (orEmpty : Bool) (word : List Piece)
  | replace (orEmpty : Bool) (word : List Piece)
  | strip (atEnd longest : Bool) (pattern : List Piece)

/-- A redirection of the stream with a number. -/
inductive Redirection
  | mk (descriptor : Nat) (kind : RedirectionKind) (target : List Piece)

/-- A command. A simple one knows its line in the script. -/
inductive Command
  | simple
      (line : Nat)
      (assignments : List (Bytes × List Piece))
      (words : List (List Piece))
  | redirected (command : Command) (redirections : List Redirection)
  | sequence (commands : List Command)
  | both (left right : Command)
  | either (left right : Command)
  | negated (command : Command)
  | pipeline (stages : List Command)
  | background (command : Command)
  | subshell (body : Command)
  | conditional (test body alternative : Command)
  | loop (whileFails : Bool) (test body : Command)
  | each (name : Bytes) (words : Option (List (List Piece))) (body : Command)
  | choice
      (word : List Piece)
      (branches : List (List (List Piece) × Command))
  | define (name : Bytes) (body : Command)

end

instance : Inhabited Piece := ⟨.plain []⟩

instance : Inhabited Use := ⟨.value⟩

instance : Inhabited Command := ⟨.sequence []⟩

instance : Inhabited Redirection := ⟨.mk 0 .input []⟩

/-- A word of a command. -/
abbrev Word := List Piece

end Shell
end NotePress
