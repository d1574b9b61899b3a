import NotePress.Toml.Number

/-!
# TOML dates and times

A moment is a date, a time, or a date and a time with an optional distance from
universal time. Its text is kept; here it is only checked.
-/

namespace NotePress
namespace Toml

/-- The number that exactly some decimal digits at the start of a text write, and
the text after them. -/
def fixedDigits?
    (count : Nat)
    (text : List Char) : Option (Nat × List Char) :=
  let digits := text.take count
  if digits.length = count ∧ digits.all (·.isDigit) then
    (natural? 10 digits).map fun value => (value, text.drop count)
  else
    none

/-- The number of days of a month. -/
def daysIn (year month : Nat) : Nat :=
  if month = 2 then
    if year % 4 = 0 ∧ (year % 100 ≠ 0 ∨ year % 400 = 0) then 29 else 28
  else if month = 4 ∨ month = 6 ∨ month = 9 ∨ month = 11 then
    30
  else
    31

/-- The text after a date at its start. -/
def afterDate? (text : List Char) : Option (List Char) := do
  let (year, rest) ← fixedDigits? 4 text
  let (month, rest) ← fixedDigits? 2 (← behind? ['-'] rest)
  let (day, rest) ← fixedDigits? 2 (← behind? ['-'] rest)
  if 1 ≤ month ∧ month ≤ 12 ∧ 1 ≤ day ∧ day ≤ daysIn year month then
    some rest
  else
    none

/-- The text after a fraction of a second at its start. -/
def afterFraction? (text : List Char) : Option (List Char) :=
  match text with
  | '.' :: rest =>
      if (rest.takeWhile (·.isDigit)).isEmpty then
        none
      else
        some (rest.dropWhile (·.isDigit))
  | _ => some text

/-- The text after seconds at its start, which may be left out. -/
def afterSeconds? (text : List Char) : Option (List Char) :=
  match text with
  | ':' :: rest =>
      match fixedDigits? 2 rest with
      | some (second, rest) => if second ≤ 60 then afterFraction? rest else none
      | none => none
  | _ => some text

/-- The text after hours and minutes at its start. -/
def afterMinutes? (text : List Char) : Option (List Char) := do
  let (hour, rest) ← fixedDigits? 2 text
  let (minute, rest) ← fixedDigits? 2 (← behind? [':'] rest)
  if hour ≤ 23 ∧ minute ≤ 59 then some rest else none

/-- The text after a time at its start. -/
def afterTime? (text : List Char) : Option (List Char) := do
  afterSeconds? (← afterMinutes? text)

/-- The text after a distance from universal time at its start, which may be left
out. -/
def afterOffset? (text : List Char) : Option (List Char) :=
  match text with
  | 'Z' :: rest => some rest
  | 'z' :: rest => some rest
  | '+' :: rest => afterMinutes? rest
  | '-' :: rest => afterMinutes? rest
  | _ => some text

/-- Whether a text is a moment. -/
def isMoment (text : List Char) : Bool :=
  match afterDate? text with
  | some [] => true
  | some (separator :: rest) =>
      (separator == 'T' || separator == 't' || separator == ' ') &&
        ((afterTime? rest).bind afterOffset?) == some []
  | none => afterTime? text == some []

end Toml
end NotePress
