import NotePress.Disk
import NotePress.Shell.Bytes

/-!
# Conditions on texts, numbers and files

The conditions of `test`: comparisons of texts and of numbers, questions about
files, and their combinations. Whether a word is an operator depends on the words
behind it, so that every word can be an operand.
-/

namespace NotePress
namespace Shell
namespace Condition

/-- Why words are no condition. -/
inductive Failure
  | unexpected (word : Bytes)
  | noOperand (word : Bytes)
  | notClosed
  | notNumber (word : Bytes)
  deriving DecidableEq, Repr, Inhabited

/-- What is said about words that are no condition. -/
def Failure.message : Failure → Bytes
  | unexpected word => word ++ ": unexpected operator".toList
  | noOperand word => word ++ ": argument expected".toList
  | notClosed => "closing paren expected".toList
  | notNumber word => "Illegal number: ".toList ++ word

/-- What a word means where it stands. -/
inductive Meaning
  | nothing
  | operand
  | question
  | comparison
  | negation
  | both
  | either
  | opening
  | closing
  deriving DecidableEq, Repr, Inhabited

/-- The questions about one text. -/
def questions : List String :=
  ["-n", "-z", "-e", "-r", "-w", "-x", "-f", "-d", "-s", "-L", "-h", "-t", "-p",
    "-S", "-b", "-c", "-u", "-g", "-k", "-O", "-G"]

/-- The comparisons of two texts. -/
def comparisons : List String :=
  ["=", "!=", "<", ">", "-eq", "-ne", "-lt", "-le", "-gt", "-ge", "-nt", "-ot",
    "-ef"]

/-- What a word means if it is an operator. -/
def operator? (word : Bytes) : Option Meaning :=
  match String.ofList word with
  | "!" => some .negation
  | "-a" => some .both
  | "-o" => some .either
  | "(" => some .opening
  | ")" => some .closing
  | name =>
      if questions.contains name then some .question
      else if comparisons.contains name then some .comparison
      else none

/-- What the first of some words means. A question is one only if its operand
follows and is not compared itself. -/
def meaning : List Bytes → Meaning
  | [] => .nothing
  | word :: others =>
      match operator? word with
      | none => .operand
      | some .question =>
          match others with
          | [] => .operand
          | [_] => .question
          | first :: _ =>
              if operator? first = some .comparison then .operand else .question
      | some .opening => if others.isEmpty then .operand else .opening
      | some other => other

/-- The number that a word writes. Blanks may stand around it. -/
def number (word : Bytes) : Except Failure Int :=
  let isBlank := fun byte : Char =>
    byte == ' ' || byte == '\t' || byte == '\n' || byte == '\r'
  let digits := word.dropWhile isBlank
  let digits := (digits.reverse.dropWhile isBlank).reverse
  match Bytes.toInt? digits with
  | some value =>
      if value.natAbs < Nat.pow 2 63 then .ok value else .error (.notNumber word)
  | none => .error (.notNumber word)

/-- The answer to a question about one text. -/
def answer
    (disk : Disk)
    (directory : Path)
    (question : String)
    (operand : Bytes) : Except Failure Bool :=
  let path : Path :=
    if operand.isEmpty then ⟨""⟩ else Path.join directory ⟨operand.toText⟩
  let node? :=
    match disk.locate path with
    | .ok location => disk.nodeAt? location
    | .error _ => none
  match question with
  | "-n" => .ok !operand.isEmpty
  | "-z" => .ok operand.isEmpty
  | "-e" | "-r" | "-w" | "-O" | "-G" => .ok (disk.hasEntry path)
  | "-x" =>
      .ok (disk.isDirectory path || (node?.map FileNode.isExecutable).getD false)
  | "-f" => .ok node?.isSome
  | "-d" => .ok (disk.isDirectory path)
  | "-c" => .ok (disk.lookup? path == some .device)
  | "-s" =>
      .ok (disk.isDirectory path ||
        (node?.map fun node =>
          node.content.bytes.size != 0 || node.program.isSome).getD false)
  | "-L" | "-h" =>
      match disk.locateName path with
      | .error _ => .ok false
      | .ok location =>
          match disk.entryAt? location with
          | some (.link _) => .ok true
          | _ => .ok false
  | "-t" => (number operand).map fun _ => false
  | _ => .ok false

/-- The answer to a comparison. All files count as equally old. -/
def compare
    (disk : Disk)
    (directory : Path)
    (left : Bytes)
    (comparison : String)
    (right : Bytes) : Except Failure Bool :=
  let numbers := fun (compare : Int → Int → Bool) =>
    match number left, number right with
    | .ok left, .ok right => .ok (compare left right)
    | .error failure, _ => .error failure
    | _, .error failure => .error failure
  let place? := fun operand : Bytes =>
    match disk.locate (Path.join directory ⟨operand.toText⟩) with
    | .error _ => none
    | .ok location =>
        match disk.entryAt? location with
        | some (.file node) => some (([] : Location), some node)
        | some _ => some (location, none)
        | none => none
  match comparison with
  | "=" => .ok (left == right)
  | "!=" => .ok (left != right)
  | "<" => .ok (Bytes.notAfter left right && left != right)
  | ">" => .ok (Bytes.notAfter right left && left != right)
  | "-eq" => numbers fun left right => left == right
  | "-ne" => numbers fun left right => left != right
  | "-lt" => numbers fun left right => left < right
  | "-le" => numbers fun left right => left ≤ right
  | "-gt" => numbers fun left right => left > right
  | "-ge" => numbers fun left right => left ≥ right
  | "-ef" => .ok ((place? left).isSome && place? left == place? right)
  | _ => .ok false

/-- An answer, with the words from the last one on that was read. -/
abbrev Answer := Except Failure (Bool × List Bytes)

section

variable (disk : Disk) (directory : Path)

mutual

/-- Conditions of which one has to hold. -/
def anyOf (fuel : Nat) (words : List Bytes) : Answer :=
  match fuel with
  | 0 => .ok (false, [])
  | fuel + 1 => do
      let (first, rest) ← allOf fuel words
      if meaning rest.tail = .either then
        let (second, rest) ← anyOf fuel (rest.drop 2)
        return (first || second, rest)
      else
        return (first, rest)

/-- Conditions that all have to hold. -/
def allOf (fuel : Nat) (words : List Bytes) : Answer :=
  match fuel with
  | 0 => .ok (false, [])
  | fuel + 1 => do
      let (first, rest) ← single fuel words
      if meaning rest.tail = .both then
        let (second, rest) ← allOf fuel (rest.drop 2)
        return (first && second, rest)
      else
        return (first, rest)

/-- One condition, or the opposite of one. -/
def single (fuel : Nat) (words : List Bytes) : Answer :=
  match fuel with
  | 0 => .ok (false, [])
  | fuel + 1 => do
      match meaning words with
      | .nothing => return (false, words)
      | .negation =>
          if words.tail.isEmpty then
            return (true, words)
          else
            let (holds, rest) ← single fuel words.tail
            return (!holds, rest)
      | .opening =>
          if meaning words.tail = .closing then
            return (false, words.tail)
          else
            let (holds, rest) ← anyOf fuel words.tail
            if meaning rest.tail = .closing then
              return (holds, rest.tail)
            else
              throw .notClosed
      | .question =>
          match words with
          | question :: operand :: rest =>
              let holds ← answer disk directory (String.ofList question) operand
              return (holds, operand :: rest)
          | _ => throw (.noOperand (words.head?.getD []))
      | _ =>
          match words with
          | left :: rest =>
              if meaning rest = .comparison then
                match rest with
                | comparison :: right :: rest =>
                    let holds ←
                      compare disk directory left (String.ofList comparison) right
                    return (holds, right :: rest)
                | _ => throw (.noOperand (rest.head?.getD []))
              else
                return (!left.isEmpty, words)
          | [] => return (false, [])

end

/-- Whether the condition holds that words ask for, as far as they can be read. -/
def whole (words : List Bytes) : Except Failure Bool :=
  match anyOf disk directory (6 * words.length + 6) words with
  | .error failure => .error failure
  | .ok (_, last :: _ :: _) => .error (.unexpected last)
  | .ok (holds, _) => .ok holds

/-- Whether the condition holds that words ask for. No words are a condition that
does not hold. Three words with a comparison in the middle are just that. -/
def holds (words : List Bytes) : Except Failure Bool :=
  match words with
  | [] => .ok false
  | [first, second, third] =>
      if operator? second = some .comparison then
        compare disk directory first (String.ofList second) third
      else if first == ['('] && third == [')'] then
        whole disk directory [second]
      else if first == ['!'] then
        (whole disk directory [second, third]).map Bool.not
      else
        whole disk directory words
  | [first, second, third, fourth] =>
      if first == ['('] && fourth == [')'] then
        whole disk directory [second, third]
      else if first == ['!'] then
        (holds [second, third, fourth]).map Bool.not
      else
        whole disk directory words
  | _ => whole disk directory words

end

end Condition
end Shell
end NotePress
