import NotePress.Shell.Expression
import NotePress.Shell.Format
import NotePress.Shell.Printed

/-!
# Calculating with words

`expr` prints what an expression of numbers and texts is worth, each word of which
is an argument. `seq` prints the numbers of a range, which may have places behind a
point.
-/

namespace NotePress
namespace Shell

/-! ## Expressions -/

namespace Calculation

/-- Why words have no value. -/
inductive Failure
  | notNumber
  | zeroDivisor
  | unexpected (word : Bytes)
  | endsAfter (word : Bytes)
  | notClosedAfter (word : Bytes)
  | notClosedBefore (word : Bytes)
  | badPattern
  deriving DecidableEq, Repr, Inhabited

/-- What is said about words that have no value. -/
def Failure.message : Failure → Bytes
  | notNumber => "non-integer argument".toList
  | zeroDivisor => "division by zero".toList
  | unexpected word =>
      (if word = [')'] then "syntax error: unexpected "
        else "syntax error: unexpected argument ").toList ++ Filter.inQuotes word
  | endsAfter word =>
      "syntax error: missing argument after ".toList ++ Filter.inQuotes word
  | notClosedAfter word =>
      "syntax error: expecting ')' after ".toList ++ Filter.inQuotes word
  | notClosedBefore word =>
      "syntax error: expecting ')' instead of ".toList ++ Filter.inQuotes word
  | badPattern => "Invalid regular expression".toList

/-- The number that a text writes. -/
def number? (text : Bytes) : Option Int :=
  match text with
  | '+' :: _ => none
  | text => Bytes.toInt? text

/-- Whether a text counts as false: nothing, or zero. -/
def isNull (text : Bytes) : Bool :=
  text.isEmpty || number? text = some 0

/-- The numbers that two texts write. -/
def numbers (left right : Bytes) : Except Failure (Int × Int) :=
  match number? left, number? right with
  | some left, some right => .ok (left, right)
  | _, _ => .error .notNumber

/-- What stands for an answer. -/
def truth (holds : Bool) : Bytes :=
  if holds then ['1'] else ['0']

/-- The order of two texts: that of the numbers if both are numbers. -/
def order (left right : Bytes) : Ordering :=
  match number? left, number? right with
  | some left, some right => compare left right
  | _, _ =>
      if left == right then .eq
      else if Bytes.notAfter left right then .lt
      else .gt

/-- What a pattern takes from the start of a text: the text of its group, or the
number of characters without a group. -/
def taken (text pattern : Bytes) : Except Failure Bytes :=
  match Expression.ofText? false pattern with
  | none => .error .badPattern
  | some expression =>
      let hasGroup := (pattern.zip pattern.tail).contains ('\\', '(')
      match Expression.furthest? (expression.reach false ⟨0, text, []⟩) with
      | some place =>
          if hasGroup then .ok ((place.groups.lookup 1).getD [])
          else .ok (Bytes.ofNat place.position)
      | none => .ok (if hasGroup then [] else ['0'])

/-- The operators of two operands, those that bind least first. -/
def levels : List (List String) :=
  [["|"], ["&"], ["<", "<=", "=", "==", "!=", ">=", ">"], ["+", "-"],
    ["*", "/", "%"], [":"]]

/-- What an operator makes of two operands. -/
def apply (operator : String) (left right : Bytes) : Except Failure Bytes :=
  match operator with
  | "|" =>
      .ok (if !isNull left then left else if !isNull right then right else ['0'])
  | "&" => .ok (if isNull left || isNull right then ['0'] else left)
  | "<" => .ok (truth (order left right == .lt))
  | "<=" => .ok (truth (order left right != .gt))
  | "=" | "==" => .ok (truth (order left right == .eq))
  | "!=" => .ok (truth (order left right != .eq))
  | ">=" => .ok (truth (order left right != .lt))
  | ">" => .ok (truth (order left right == .gt))
  | ":" => taken left right
  | "+" => do
      let (left, right) ← numbers left right
      return Bytes.ofInt (left + right)
  | "-" => do
      let (left, right) ← numbers left right
      return Bytes.ofInt (left - right)
  | "*" => do
      let (left, right) ← numbers left right
      return Bytes.ofInt (left * right)
  | _ => do
      let (left, right) ← numbers left right
      if right = 0 then throw .zeroDivisor
      return Bytes.ofInt
        (if operator == "/" then left.tdiv right else left.tmod right)

/-- A value, with the words behind it. -/
abbrev Answer := Except Failure (Bytes × List Bytes)

/-- The last of the words that were read, given those that are left. -/
def lastRead (words rest : List Bytes) : Bytes :=
  ((words.take (words.length - rest.length)).getLast?).getD []

section

variable (words : List Bytes)

mutual

/-- The value of operands joined by operators of some level and those that bind
more. -/
def joined (fuel : Nat) (levels : List (List String)) (rest : List Bytes) : Answer :=
  match fuel with
  | 0 => .ok ([], [])
  | fuel + 1 =>
      match levels with
      | [] => single fuel rest
      | level :: levels => do
          let (value, rest) ← joined fuel levels rest
          continued fuel level levels value rest

/-- The value of an operand with the operators of a level behind it. -/
def continued
    (fuel : Nat)
    (level : List String)
    (levels : List (List String))
    (value : Bytes)
    (rest : List Bytes) : Answer :=
  match fuel with
  | 0 => .ok (value, [])
  | fuel + 1 =>
      match rest with
      | [] => .ok (value, [])
      | operator :: others =>
          if level.contains (String.ofList operator) then do
            let (operand, others) ← joined fuel levels others
            let value ← apply (String.ofList operator) value operand
            continued fuel level levels value others
          else
            .ok (value, rest)

/-- The value of one operand: a word, a function of operands, or an expression in
parentheses. -/
def single (fuel : Nat) (rest : List Bytes) : Answer :=
  match fuel with
  | 0 => .ok ([], [])
  | fuel + 1 =>
      match rest with
      | [] => .error (.endsAfter (lastRead words []))
      | word :: others =>
          match String.ofList word with
          | "(" => do
              let (value, others) ← joined fuel Calculation.levels others
              match others with
              | [')'] :: others => return (value, others)
              | [] => throw (.notClosedAfter (lastRead words []))
              | other :: _ => throw (.notClosedBefore other)
          | ")" => .error (.unexpected word)
          | "+" =>
              match others with
              | [] => .error (.endsAfter word)
              | quoted :: others => .ok (quoted, others)
          | "length" => do
              let (text, others) ← single fuel others
              return (Bytes.ofNat text.length, others)
          | "match" => do
              let (text, others) ← single fuel others
              let (pattern, others) ← single fuel others
              return (← taken text pattern, others)
          | "index" => do
              let (text, others) ← single fuel others
              let (members, others) ← single fuel others
              let before := text.takeWhile fun byte => !members.contains byte
              return (Bytes.ofNat (if before.length = text.length then 0
                else before.length + 1), others)
          | "substr" => do
              let (text, others) ← single fuel others
              let (start, others) ← single fuel others
              let (length, others) ← single fuel others
              match number? start, number? length with
              | some start, some length =>
                  if start ≤ 0 || length ≤ 0 then
                    return ([], others)
                  else
                    return ((text.drop (start.toNat - 1)).take length.toNat, others)
              | _, _ => return ([], others)
          | _ => .ok (word, others)

end

/-- The value of all words. -/
def value : Except Failure Bytes := do
  let (value, rest) ← joined words (20 * words.length + 20) levels words
  match rest with
  | [] => return value
  | word :: _ => throw (.unexpected word)

end

end Calculation

namespace Filter

/-- Print the value of an expression, and tell whether it counts as true. All
arguments are words of the expression. -/
def expr : Filter where
  spell arguments :=
    if arguments.head? = some ['-', '-'] then arguments else ['-', '-'] :: arguments
  reads _ := false
  print _ options :=
    if options.operands.isEmpty then
      .usage "expr" "missing operand".toList 2
    else
      match Calculation.value options.operands with
      | .error failure => .failing "expr" failure.message 2
      | .ok value =>
          ⟨[(1, value ++ ['\n'])], if Calculation.isNull value then 1 else 0⟩

/-! ## Ranges -/

/-- A number with places behind a point. -/
structure Decimal where
  /-- The number without its point. -/
  scaled : Int
  places : Nat
  deriving DecidableEq, Repr, Inhabited

namespace Decimal

/-- The number that a text writes. -/
def ofText? (text : Bytes) : Option Decimal :=
  let (isNegative, digits) :=
    match text with
    | '-' :: digits => (true, digits)
    | '+' :: digits => (false, digits)
    | digits => (false, digits)
  let whole := digits.takeWhile (· != '.')
  let fraction := digits.drop (whole.length + 1)
  (Bytes.toNat? (whole ++ fraction)).map fun value =>
    ⟨if isNegative then -(value : Int) else (value : Int), fraction.length⟩

/-- A number as a count of units of so many places. -/
def inUnits (places : Nat) (number : Decimal) : Int :=
  number.scaled * (Nat.pow 10 (places - number.places) : Nat)

/-- A count of units written as a number, filled with zeros up to a width. -/
def ofUnits (places width : Nat) (units : Int) : Bytes :=
  let digits := Bytes.ofNat units.natAbs
  let digits := List.replicate (places + 1 - digits.length) '0' ++ digits
  let whole := digits.take (digits.length - places)
  let text :=
    if places = 0 then whole
    else whole ++ '.' :: digits.drop (digits.length - places)
  let sign := if units < 0 then ['-'] else []
  sign ++ List.replicate (width - sign.length - text.length) '0' ++ text

end Decimal

/-- A number put in the place of the field of a format, which names it by `%g`, or
`%f` with some places. -/
def formatted (format : Bytes) (text : Bytes) : Bytes :=
  let before := format.takeWhile (· != '%')
  let rest := format.drop (before.length + 1)
  let flags := rest.takeWhile fun byte => !byte.isAlpha
  let letter := (rest.drop flags.length).head?.getD 'g'
  let behind := rest.drop (flags.length + 1)
  let field : Bytes :=
    if letter = 'g' then
      '%' :: flags ++ [if text.contains '.' then 's' else 'd']
    else
      '%' :: flags ++ [letter]
  before ++ (Format.printf field [text]).text ++ behind

/-- Arguments with a mark before the first negative number, which is no option. -/
def markNegative : List Bytes → List Bytes
  | [] => []
  | argument :: others =>
      match argument with
      | '-' :: digit :: _ =>
          if digit.isDigit || digit = '.' then ['-', '-'] :: argument :: others
          else if argument = ['-', 's'] || argument = ['-', 'f'] then
            match others with
            | value :: others => argument :: value :: markNegative others
            | [] => [argument]
          else argument :: markNegative others
      | _ => argument :: markNegative others

/-- Print the numbers of a range, one a line. -/
def seq : Filter where
  spell := markNegative
  form :=
    { plain := "w"
      valued := "sf"
      long := [("equal-width", 'w'), ("separator", 's'), ("format", 'f')] }
  reads _ := false
  print _ options :=
    match options.operands.find? fun operand => (Decimal.ofText? operand).isNone with
    | some operand =>
        .usage "seq" ("invalid floating point argument: ".toList ++
          inQuotes operand) 1
    | none =>
        let numbers := options.operands.filterMap Decimal.ofText?
        let one : Decimal := ⟨1, 0⟩
        let range? :=
          match numbers with
          | [last] => some (one, one, last)
          | [first, last] => some (first, one, last)
          | [first, step, last] => some (first, step, last)
          | _ => none
        match range?, options.operands[3]? with
        | _, some extra => .usage "seq" ("extra operand ".toList ++ inQuotes extra) 1
        | none, none => .usage "seq" "missing operand".toList 1
        | some (first, step, last), none =>
            let units := max (max first.places step.places) last.places
            let places := max first.places step.places
            let start := first.inUnits units
            let stride := step.inUnits units
            let stop := last.inUnits units
            if stride = 0 then
              .usage "seq" ("invalid Zero increment value: ".toList ++
                inQuotes ((options.operands[1]?).getD [])) 1
            else
              let count :=
                if 0 < stride then (stop - start) / stride + 1
                else (start - stop) / (-stride) + 1
              let shown := fun (width : Nat) (value : Int) =>
                Decimal.ofUnits places width
                  (value / (Nat.pow 10 (units - places) : Nat))
              let values := (List.range count.toNat).map fun index : Nat =>
                start + stride * (index : Int)
              let width :=
                if options.has 'w' then
                  max (shown 0 start).length (shown 0 stop).length
                else
                  0
              if values.isEmpty then
                {}
              else
                let written := fun value : Int =>
                  match options.value? 'f' with
                  | some format => formatted format (shown width value)
                  | none => shown width value
                .only (((options.value? 's').getD ['\n']).intercalate
                  (values.map written) ++ ['\n'])

end Filter
end Shell
end NotePress
