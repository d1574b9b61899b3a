import NotePress.Text.Lines
import NotePress.Toml.Text
import NotePress.Toml.Value

/-!
# TOML numbers

Digits may be grouped with single underscores between them. A whole number is
decimal, with an optional sign and no zero in front, or has one of the prefixes
`0x`, `0o` and `0b`. A number with a fraction, an exponent or both is a decimal
number.
-/

namespace NotePress
namespace Toml

/-- The value of a digit in a base. -/
def digit?
    (base : Nat)
    (character : Char) : Option Nat :=
  match hexDigit? character with
  | none => none
  | some value => if value < base then some value else none

/-- The values of digits with underscores between them. -/
def digits?
    (base : Nat)
    (text : List Char) : Option (List Nat) :=
  let groups := Text.splitAt '_' text
  if groups.any List.isEmpty then
    none
  else
    groups.flatten.mapM (digit? base)

/-- The number that digits write. -/
def valueOf
    (base : Nat)
    (digits : List Nat) : Nat :=
  digits.foldl (fun value digit => base * value + digit) 0

/-- The whole number that digits write in a base. -/
def natural?
    (base : Nat)
    (text : List Char) : Option Nat :=
  (digits? base text).map (valueOf base)

/-- Decimal digits without a zero in front of others. -/
def wholeDigits? (text : List Char) : Option (List Nat) :=
  match text with
  | '0' :: _ :: _ => none
  | _ => digits? 10 text

/-- Whether a number is negative, and the number without its sign. -/
def splitSign : List Char → Bool × List Char
  | '+' :: rest => (false, rest)
  | '-' :: rest => (true, rest)
  | text => (false, text)

/-- A number with its sign. -/
def signed
    (negative : Bool)
    (value : Nat) : Int :=
  if negative then -(value : Int) else value

/-- What stands before and after the first character that passes a test. -/
def splitFirst?
    (test : Char → Bool)
    (text : List Char) : Option (List Char × List Char) :=
  match text.dropWhile fun character => !test character with
  | [] => none
  | _ :: after => some (text.takeWhile fun character => !test character, after)

/-- The digits after a point, if there is a point. -/
def fraction? : Option (List Char) → Option (List Nat)
  | none => some []
  | some text => digits? 10 text

/-- The power of ten after an `e`, if there is one. -/
def exponent? : Option (List Char) → Option Int
  | none => some 0
  | some text =>
      let (negative, digits) := splitSign text
      (natural? 10 digits).map (signed negative)

/-- The value that an unsigned number in decimal writes. -/
def decimal?
    (negative : Bool)
    (text : List Char) : Option Value :=
  let (mantissa, power) :=
    match splitFirst? (fun character => character == 'e' || character == 'E')
        text with
    | none => (text, none)
    | some (mantissa, power) => (mantissa, some power)
  let (whole, fraction) :=
    match splitFirst? (· == '.') mantissa with
    | none => (mantissa, none)
    | some (whole, fraction) => (whole, some fraction)
  match wholeDigits? whole, fraction? fraction, exponent? power with
  | some whole, some decimals, some exponent =>
      if fraction.isNone && power.isNone then
        some (.integer (signed negative (valueOf 10 whole)))
      else
        some (.decimal negative (valueOf 10 (whole ++ decimals))
          (exponent - decimals.length))
  | _, _, _ => none

/-- The value that a number writes. -/
def number? (text : List Char) : Option Value :=
  match text with
  | '0' :: 'x' :: digits => (natural? 16 digits).map fun n => .integer n
  | '0' :: 'o' :: digits => (natural? 8 digits).map fun n => .integer n
  | '0' :: 'b' :: digits => (natural? 2 digits).map fun n => .integer n
  | _ =>
      let (negative, unsigned) := splitSign text
      if unsigned = "inf".toList || unsigned = "nan".toList then
        some .unbounded
      else
        decimal? negative unsigned

/-- Whether a whole number fits into 128 bits, with or without a sign. -/
def integerFits (value : Int) : Bool :=
  -(Nat.pow 2 127 : Int) ≤ value && value < (Nat.pow 2 128 : Int)

/-- The least number that a double is too small for: half a step above the
greatest double. -/
def doubleLimit : Nat := Nat.pow 2 1024 - Nat.pow 2 970

/-- How many decimal digits a number has. -/
def digitCount (value : Nat) : Nat :=
  (Nat.toDigits 10 value).length

/-- Whether the digits times a power of ten, rounded to a double, are finite.
Powers far away from the limit are not computed. -/
def decimalFits
    (digits : Nat)
    (exponent : Int) : Bool :=
  if digits = 0 then
    true
  else if 400 < digitCount digits + exponent then
    false
  else if digitCount digits + exponent < 0 then
    true
  else if exponent < 0 then
    digits < doubleLimit * Nat.pow 10 exponent.natAbs
  else
    digits * Nat.pow 10 exponent.natAbs < doubleLimit

end Toml
end NotePress
