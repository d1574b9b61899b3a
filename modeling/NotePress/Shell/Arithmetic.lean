import NotePress.Shell.Bytes

/-!
# Shell arithmetic

Expressions over whole numbers of 64 bits with the operators of C. A variable
stands for the number that its value is; one without a value is zero. Assignments
are told apart from the value, so that whoever asked can carry them out.
-/

namespace NotePress
namespace Shell
namespace Arithmetic

/-- A number, wrapped to 64 bits with a sign. -/
def wrap (value : Int) : Int :=
  Int.bmod value (Nat.pow 2 64)

/-- One, if a test holds, and zero otherwise. -/
def ofBool (test : Bool) : Int :=
  if test then 1 else 0

/-- The operators with two operands, longest spelling first, with how tightly
they bind. -/
def operators : List (String × Nat) :=
  [("||", 1), ("&&", 2), ("==", 6), ("!=", 6), ("<=", 7), (">=", 7),
    ("<<", 8), (">>", 8), ("|", 3), ("^", 4), ("&", 5), ("<", 7), (">", 7),
    ("+", 9), ("-", 9), ("*", 10), ("/", 10), ("%", 10)]

/-- Why an expression has no value. -/
inductive Failure
  /-- Something else stands where this is expected. -/
  | expecting (what : String)
  | divisionByZero
  /-- The value of a variable is no number. -/
  | notNumber (value : Bytes)
  deriving DecidableEq, Repr, Inhabited

/-- What is said about an expression without a value. -/
def Failure.message (expression : Bytes) : Failure → Bytes
  | expecting what =>
      "arithmetic expression: expecting ".toList ++ what.toList ++
        ": \"".toList ++ expression ++ ['"']
  | divisionByZero =>
      "arithmetic expression: division by zero: \"".toList ++ expression ++ ['"']
  | notNumber value => "Illegal number: ".toList ++ value

/-- The value of an operator for two operands. -/
def combine (operator : String) (left right : Int) : Except Failure Int :=
  match operator with
  | "||" => .ok (ofBool (left != 0 || right != 0))
  | "&&" => .ok (ofBool (left != 0 && right != 0))
  | "==" => .ok (ofBool (left == right))
  | "!=" => .ok (ofBool (left != right))
  | "<=" => .ok (ofBool (left ≤ right))
  | ">=" => .ok (ofBool (left ≥ right))
  | "<" => .ok (ofBool (left < right))
  | ">" => .ok (ofBool (left > right))
  | "|" => .ok ((BitVec.ofInt 64 left ||| BitVec.ofInt 64 right).toInt)
  | "^" => .ok ((BitVec.ofInt 64 left ^^^ BitVec.ofInt 64 right).toInt)
  | "&" => .ok ((BitVec.ofInt 64 left &&& BitVec.ofInt 64 right).toInt)
  | "<<" => .ok (wrap (left * (Nat.pow 2 (right % 64).toNat : Nat)))
  | ">>" => .ok (left / (Nat.pow 2 (right % 64).toNat : Nat))
  | "+" => .ok (wrap (left + right))
  | "-" => .ok (wrap (left - right))
  | "*" => .ok (wrap (left * right))
  | "/" =>
      if right = 0 then .error .divisionByZero else .ok (wrap (Int.tdiv left right))
  | "%" =>
      if right = 0 then .error .divisionByZero else .ok (wrap (Int.tmod left right))
  | _ => .ok right

/-- An expression without blanks at its start. -/
def skipBlanks (text : Bytes) : Bytes :=
  text.dropWhile fun byte => byte == ' ' || byte == '\t' || byte == '\n'

/-- The value of a digit, letters counting on from ten. -/
def digitValue (byte : Char) : Nat :=
  if byte.isDigit then
    byte.toNat - '0'.toNat
  else
    byte.toLower.toNat - 'a'.toNat + 10

/-- The greatest number. -/
def greatest : Int := Nat.pow 2 63 - 1

/-- The number that the digits of a base at the start of a text write, and what
follows them. -/
def inBase? (base : Nat) (text : Bytes) : Option (Nat × Bytes) :=
  let digits := text.takeWhile fun byte =>
    byte.isAlphanum && digitValue byte < base
  if digits.isEmpty then
    none
  else
    some (digits.foldl (fun value byte => base * value + digitValue byte) 0,
      text.drop digits.length)

/-- The number that a constant at the start of a text writes, and what follows it:
hexadecimal after `0x`, octal after a zero, and decimal otherwise. -/
def constant? (text : Bytes) : Option (Nat × Bytes) :=
  match text with
  | '0' :: letter :: rest =>
      if letter == 'x' || letter == 'X' then
        match inBase? 16 rest with
        | some read => some read
        | none => some (0, letter :: rest)
      else
        inBase? 8 text
  | _ => inBase? 10 text

/-- The number that the value of a variable writes. Blanks may stand around it. -/
def ofValue (value : Bytes) : Except Failure Int :=
  let start := value.dropWhile fun byte => byte == ' ' || byte == '\t' || byte == '\n'
  let (isNegative, digits) :=
    match start with
    | '-' :: digits => (true, digits)
    | '+' :: digits => (false, digits)
    | digits => (false, digits)
  if start.isEmpty then
    .ok 0
  else
    match constant? digits with
    | none => .error (.notNumber value)
    | some (number, rest) =>
        let number : Int := if isNegative then -(number : Int) else number
        if (skipBlanks rest).isEmpty && number ≤ greatest && -greatest - 1 ≤ number then
          .ok number
        else
          .error (.notNumber value)

/-- The variables with their values, the newest first. -/
abbrev Values := List (Bytes × Bytes)

/-- The operator with two operands at the start of an expression, and what
follows it. -/
def operator? (text : Bytes) : Option ((String × Nat) × Bytes) :=
  match operators.find? fun operator =>
      operator.1.toList.isPrefixOf text with
  | none => none
  | some operator =>
      let rest := text.drop operator.1.length
      if rest.head? = some '=' ∧
          ¬["==", "!=", "<=", ">=", "<", ">"].contains operator.1 then
        none
      else
        some (operator, rest)

/-- The operator of an assignment at the start of an expression, and what follows
it. A plain assignment has the operator of no name. -/
def assignment? (text : Bytes) : Option (String × Bytes) :=
  match text with
  | '=' :: '=' :: _ => none
  | '=' :: rest => some ("", rest)
  | _ =>
      (["<<", ">>", "+", "-", "*", "/", "%", "&", "|", "^"].find? fun operator =>
        (operator ++ "=").toList.isPrefixOf text).map fun operator =>
          (operator, text.drop (operator.length + 1))

/-- What is known after a part of an expression: its value, the variables, and
what follows. -/
abbrev Result := Except Failure (Int × Values × Bytes)

/-- What is said when something more has to follow. -/
def Failure.operand : Failure := .expecting "primary"

mutual

/-- An expression with a condition or an assignment. What is not live is only
read: it assigns nothing and has no value that counts. -/
def expression
    (fuel : Nat)
    (live : Bool)
    (values : Values)
    (text : Bytes) : Result :=
  match fuel with
  | 0 => .error .operand
  | fuel + 1 =>
      let start := skipBlanks text
      let name := start.takeWhile fun byte => byte.isAlphanum || byte == '_'
      let isName := match name with
        | first :: _ => !first.isDigit
        | [] => false
      match isName, assignment? (skipBlanks (start.drop name.length)) with
      | true, some (operator, rest) => do
          let (right, values, rest) ← expression fuel live values rest
          if live then
            let left ←
              if operator.isEmpty then pure 0
              else ofValue ((values.lookup name).getD [])
            let value ← combine operator left right
            return (value, (name, Bytes.ofInt value) :: values, rest)
          else
            return (0, values, rest)
      | _, _ => condition fuel live values start

/-- An expression with a condition. -/
def condition
    (fuel : Nat)
    (live : Bool)
    (values : Values)
    (text : Bytes) : Result :=
  match fuel with
  | 0 => .error .operand
  | fuel + 1 => do
      let (test, values, rest) ← operation fuel live 1 values text
      match skipBlanks rest with
      | '?' :: rest => do
          let (first, values, rest) ← expression fuel (live && test != 0) values rest
          match skipBlanks rest with
          | ':' :: rest => do
              let (second, values, rest) ←
                condition fuel (live && test == 0) values rest
              return (if test = 0 then second else first, values, rest)
          | _ => .error (.expecting "':'")
      | rest => return (test, values, rest)

/-- Operands with operators that bind at least as tightly as a level. -/
def operation
    (fuel : Nat)
    (live : Bool)
    (level : Nat)
    (values : Values)
    (text : Bytes) : Result :=
  match fuel with
  | 0 => .error .operand
  | fuel + 1 => do
      let (first, values, rest) ← operand fuel live values (skipBlanks text)
      moreOperands fuel live level first values rest

/-- What follows an operand. The right side of `&&` and `||` counts only if the
left one leaves the value open. -/
def moreOperands
    (fuel : Nat)
    (live : Bool)
    (level : Nat)
    (left : Int)
    (values : Values)
    (text : Bytes) : Result :=
  match fuel with
  | 0 => .error .operand
  | fuel + 1 =>
      match operator? (skipBlanks text) with
      | none => .ok (left, values, text)
      | some ((operator, strength), rest) =>
          if strength < level then
            .ok (left, values, text)
          else do
            let isOpen :=
              match operator with
              | "||" => left == 0
              | "&&" => left != 0
              | _ => true
            let (right, values, rest) ←
              operation fuel (live && isOpen) (strength + 1) values rest
            let value ← if live then combine operator left right else pure 0
            moreOperands fuel live level value values rest

/-- A constant, a variable, an expression in brackets, or one of these with a
sign. -/
def operand
    (fuel : Nat)
    (live : Bool)
    (values : Values)
    (text : Bytes) : Result :=
  match fuel with
  | 0 => .error .operand
  | fuel + 1 =>
      match text with
      | '(' :: rest => do
          let (value, values, rest) ← expression fuel live values rest
          match skipBlanks rest with
          | ')' :: rest => return (value, values, rest)
          | _ => .error (.expecting "')'")
      | '-' :: rest => do
          let (value, values, rest) ← operand fuel live values (skipBlanks rest)
          return (wrap (-value), values, rest)
      | '+' :: rest => operand fuel live values (skipBlanks rest)
      | '!' :: rest => do
          let (value, values, rest) ← operand fuel live values (skipBlanks rest)
          return (ofBool (value == 0), values, rest)
      | '~' :: rest => do
          let (value, values, rest) ← operand fuel live values (skipBlanks rest)
          return (-value - 1, values, rest)
      | _ =>
          match constant? text with
          | some (number, rest) => .ok (min (number : Int) greatest, values, rest)
          | none =>
              let word := text.takeWhile fun byte => byte.isAlphanum || byte == '_'
              if word.isEmpty then
                .error .operand
              else do
                let value ←
                  if live then ofValue ((values.lookup word).getD []) else pure 0
                return (value, values, text.drop word.length)

end

/-- The value of an expression, and the assignments in it, the last one first. -/
def evaluate
    (values : Values)
    (text : Bytes) : Except Failure (Int × Values) := do
  let (value, after, rest) ← expression (4 * text.length + 8) true values text
  if (skipBlanks rest).isEmpty then
    return (value, after.take (after.length - values.length))
  else
    .error (.expecting "EOF")

end Arithmetic
end Shell
end NotePress
