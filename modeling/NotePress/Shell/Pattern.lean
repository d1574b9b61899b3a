import NotePress.Shell.Bytes

/-!
# Shell patterns

A pattern is a sequence of characters, some of which are quoted and then stand
for themselves. Of the others, `*` stands for any characters, `?` for any one
character, and a bracket expression for one character of a set.
-/

namespace NotePress
namespace Shell

/-- A pattern that is ready to be matched. -/
inductive PatternPart
  | exactly (byte : Char)
  | anyOne
  | anything
  /-- One character of some ranges, or one outside them. -/
  | oneOf (negated : Bool) (ranges : List (Char × Char))
  deriving DecidableEq, Repr, Inhabited

/-- A character of a pattern, and whether it is quoted. -/
structure PatternByte where
  byte : Char
  isQuoted : Bool
  deriving DecidableEq, Repr, Inhabited

namespace Pattern

/-- The ranges of a character class. -/
def classRanges (name : Bytes) : List (Char × Char) :=
  match String.ofList name with
  | "digit" => [('0', '9')]
  | "alpha" => [('a', 'z'), ('A', 'Z')]
  | "alnum" => [('a', 'z'), ('A', 'Z'), ('0', '9')]
  | "upper" => [('A', 'Z')]
  | "lower" => [('a', 'z')]
  | "space" => [(' ', ' '), ('\t', '\r')]
  | "blank" => [(' ', ' '), ('\t', '\t')]
  | "xdigit" => [('0', '9'), ('a', 'f'), ('A', 'F')]
  | "punct" => [('!', '/'), (':', '@'), ('[', '\u0060'), ('\x7b', '~')]
  | "print" => [(' ', '~')]
  | "graph" => [('!', '~')]
  | "cntrl" => [('\x00', '\x1F'), ('\x7F', '\x7F')]
  | _ => []

/-- The ranges of a bracket expression after its opening, and what follows it. -/
def ranges?
    (fuel : Nat)
    (isFirst : Bool)
    (pattern : List PatternByte) :
    Option (List (Char × Char) × List PatternByte) :=
  match fuel with
  | 0 => none
  | fuel + 1 =>
      match pattern with
      | [] => none
      | ⟨']', false⟩ :: rest =>
          if isFirst then
            (ranges? fuel false rest).map fun (others, after) =>
              ((']', ']') :: others, after)
          else
            some ([], rest)
      | ⟨'[', false⟩ :: ⟨':', false⟩ :: rest =>
          let name := rest.takeWhile fun part => part.byte != ':'
          match rest.drop name.length with
          | ⟨':', _⟩ :: ⟨']', _⟩ :: rest =>
              (ranges? fuel false rest).map fun (others, after) =>
                (classRanges (name.map PatternByte.byte) ++ others, after)
          | _ => none
      | low :: ⟨'-', false⟩ :: high :: rest =>
          if high = ⟨']', false⟩ then
            some ([(low.byte, low.byte), ('-', '-')], rest)
          else
            (ranges? fuel false rest).map fun (others, after) =>
              ((low.byte, high.byte) :: others, after)
      | part :: rest =>
          (ranges? fuel false rest).map fun (others, after) =>
            ((part.byte, part.byte) :: others, after)

/-- The parts of a pattern. A bracket that is not closed stands for itself. -/
def partsOf
    (fuel : Nat)
    (pattern : List PatternByte) : List PatternPart :=
  match fuel with
  | 0 => []
  | fuel + 1 =>
      match pattern with
      | [] => []
      | ⟨'*', false⟩ :: rest => .anything :: partsOf fuel rest
      | ⟨'?', false⟩ :: rest => .anyOne :: partsOf fuel rest
      | ⟨'[', false⟩ :: rest =>
          let (negated, inside) :=
            match rest with
            | ⟨'!', false⟩ :: inside => (true, inside)
            | ⟨'^', false⟩ :: inside => (true, inside)
            | inside => (false, inside)
          match ranges? (inside.length + 1) true inside with
          | some (ranges, after) => .oneOf negated ranges :: partsOf fuel after
          | none => .exactly '[' :: partsOf fuel rest
      | part :: rest => .exactly part.byte :: partsOf fuel rest

/-- Whether a character is matched by a part that stands for one. -/
def matchesOne (part : PatternPart) (byte : Char) : Bool :=
  match part with
  | .exactly expected => byte == expected
  | .anyOne => true
  | .anything => false
  | .oneOf negated ranges =>
      negated != ranges.any fun (low, high) => low ≤ byte && byte ≤ high

/-- Whether parts match all of some bytes. -/
def matchesParts : List PatternPart → Bytes → Bool
  | [], bytes => bytes.isEmpty
  | .anything :: others, [] => matchesParts others []
  | .anything :: others, byte :: rest =>
      matchesParts others (byte :: rest) ||
        matchesParts (.anything :: others) rest
  | part :: others, byte :: rest =>
      matchesOne part byte && matchesParts others rest
  | _ :: _, [] => false
termination_by parts bytes => parts.length + bytes.length

/-- The parts of a pattern. -/
def parts (pattern : List PatternByte) : List PatternPart :=
  partsOf (pattern.length + 1) pattern

/-- The pattern that a text spells. A byte behind a backslash stands for itself. -/
def ofText : Bytes → List PatternByte
  | '\\' :: byte :: rest => ⟨byte, true⟩ :: ofText rest
  | byte :: rest => ⟨byte, false⟩ :: ofText rest
  | [] => []

/-- Whether a pattern matches all of some bytes. -/
def isMatch (pattern : List PatternByte) (bytes : Bytes) : Bool :=
  matchesParts (parts pattern) bytes

/-- The bytes without the shortest or longest start that a pattern matches. -/
def stripStart
    (longest : Bool)
    (pattern : List PatternByte)
    (bytes : Bytes) : Bytes :=
  let counts := List.range (bytes.length + 1)
  let counts := if longest then counts.reverse else counts
  match counts.find? fun count =>
      matchesParts (parts pattern) (bytes.take count) with
  | some count => bytes.drop count
  | none => bytes

/-- The bytes without the shortest or longest end that a pattern matches. -/
def stripEnd
    (longest : Bool)
    (pattern : List PatternByte)
    (bytes : Bytes) : Bytes :=
  let counts := List.range (bytes.length + 1)
  let counts := if longest then counts else counts.reverse
  match counts.find? fun count =>
      matchesParts (parts pattern) (bytes.drop count) with
  | some count => bytes.take count
  | none => bytes

end Pattern

end Shell
end NotePress
