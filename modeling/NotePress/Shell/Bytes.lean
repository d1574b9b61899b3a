import NotePress.Text.Utf8

/-!
# Bytes of a shell

A shell works on bytes, most of which are meant as ASCII characters. Here a byte
is the character that has its number as code point, so that the characters with a
meaning can be written as themselves.
-/

namespace NotePress
namespace Shell

/-- A sequence of bytes, each as the character with its number. -/
abbrev Bytes := List Char

namespace Bytes

/-- The bytes of a text. -/
def ofText (text : String) : Bytes :=
  text.toUTF8.toList.map fun byte => Char.ofNat byte.toNat

/-- The bytes as machine bytes. -/
def toByteArray (bytes : Bytes) : ByteArray :=
  ⟨(bytes.map fun byte => UInt8.ofNat byte.toNat).toArray⟩

/-- The text that bytes are read as. -/
def toText (bytes : Bytes) : String :=
  Text.ofBytes bytes.toByteArray

/-- The bytes of a file. -/
def ofContent (content : ByteArray) : Bytes :=
  content.toList.map fun byte => Char.ofNat byte.toNat

/-- The decimal digits of a number. -/
def ofNat (value : Nat) : Bytes :=
  Nat.toDigits 10 value

/-- The decimal digits of a number, with a minus sign if it is negative. -/
def ofInt (value : Int) : Bytes :=
  if value < 0 then '-' :: ofNat value.natAbs else ofNat value.natAbs

/-- The number that decimal digits write. -/
def toNat? (bytes : Bytes) : Option Nat :=
  if bytes.isEmpty || !bytes.all (·.isDigit) then
    none
  else
    some (bytes.foldl
      (fun value digit => 10 * value + (digit.toNat - '0'.toNat)) 0)

/-- The number that decimal digits with an optional sign write. -/
def toInt? (bytes : Bytes) : Option Int :=
  match bytes with
  | '-' :: digits => (toNat? digits).map fun value => -(value : Int)
  | '+' :: digits => (toNat? digits).map fun value => (value : Int)
  | digits => (toNat? digits).map fun value => (value : Int)

/-- The lines of bytes, without their line feeds. What follows the last line feed
is a line if it is not empty. -/
def lines : Bytes → List Bytes
  | [] => []
  | '\n' :: rest => [] :: lines rest
  | byte :: rest =>
      match lines rest with
      | [] => [[byte]]
      | line :: others =>
          (byte :: line) :: others

/-- Lines with a line feed after each. -/
def unlines (lines : List Bytes) : Bytes :=
  lines.flatMap (· ++ ['\n'])

/-- Whether bytes come before others in the order of their numbers. -/
def notAfter (left right : Bytes) : Bool :=
  match left, right with
  | [], _ => true
  | _ :: _, [] => false
  | first :: others, byte :: rest =>
      first < byte || (first == byte && notAfter others rest)

end Bytes

end Shell
end NotePress
