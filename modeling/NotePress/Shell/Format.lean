import NotePress.Shell.Bytes

/-!
# Printing in a shell

`echo` prints its arguments with blanks between them, and `printf` prints a format
over and over until its arguments are used up. Both know escapes after a
backslash.
-/

namespace NotePress
namespace Shell
namespace Format

/-- The character that a letter behind a backslash stands for. -/
def controlOf? (letter : Char) : Option Char :=
  match letter with
  | 'a' => some '\x07'
  | 'b' => some '\x08'
  | 'f' => some '\x0C'
  | 'n' => some '\n'
  | 'r' => some '\r'
  | 't' => some '\t'
  | 'v' => some '\x0B'
  | '\\' => some '\\'
  | _ => none

/-- Whether a character is an octal digit. -/
def isOctal (byte : Char) : Bool :=
  '0' ≤ byte && byte ≤ '7'

/-- The byte that octal digits write. -/
def octalByte (digits : Bytes) : Char :=
  Char.ofNat (digits.foldl
    (fun value digit => 8 * value + (digit.toNat - '0'.toNat)) 0 % 256)

/-- What an escape stands for, given what follows the backslash, and what follows
the escape. An octal escape of an argument needs a zero in front. -/
def escape (inArgument : Bool) (text : Bytes) : Bytes × Bytes :=
  match text with
  | [] => (['\\'], [])
  | first :: rest =>
      if isOctal first then
        if inArgument && first == '0' then
          let digits := (rest.takeWhile isOctal).take 3
          ([octalByte digits], rest.drop digits.length)
        else
          let digits := (text.takeWhile isOctal).take 3
          ([octalByte digits], text.drop digits.length)
      else
        match controlOf? first with
        | some control => ([control], rest)
        | none =>
            if first == '"' && !inArgument then
              (['"'], rest)
            else
              (['\\', first], rest)

theorem length_escape_le (inArgument : Bool) (text : Bytes) :
    (escape inArgument text).2.length ≤ text.length := by
  unfold escape
  repeat' split
  all_goals simp <;> omega

/-- What a text with escapes stands for, and whether it tells to print nothing
more. -/
def unescape : Bytes → Bytes × Bool
  | [] => ([], false)
  | '\\' :: 'c' :: _ => ([], true)
  | '\\' :: rest =>
      let others := unescape (escape true rest).2
      ((escape true rest).1 ++ others.1, others.2)
  | byte :: rest =>
      let others := unescape rest
      (byte :: others.1, others.2)
termination_by text => text.length
decreasing_by
  · have := length_escape_le true rest
    simp only [List.length_cons]
    omega
  · simp

/-- What `echo` prints. -/
def echo (arguments : List Bytes) : Bytes :=
  let (withoutEnd, arguments) :=
    match arguments with
    | ['-', 'n'] :: others => (true, others)
    | _ => (false, arguments)
  let (printed, stopped) := unescape ([' '].intercalate arguments)
  if withoutEnd || stopped then printed else printed ++ ['\n']

/-- A part of a format. -/
inductive Part
  | text (text : Bytes)
  | field (flags : Bytes) (width : Nat) (precision : Option Nat) (kind : Char)
  deriving DecidableEq, Repr, Inhabited

/-- The field after a percent sign, and what follows it. -/
def field (text : Bytes) : Part × Bytes :=
  let flags := text.takeWhile fun byte =>
    byte == '-' || byte == '+' || byte == ' ' || byte == '0' || byte == '#'
  let rest := text.drop flags.length
  let width := rest.takeWhile (·.isDigit)
  let rest := rest.drop width.length
  let (precision, rest) :=
    match rest with
    | '.' :: rest =>
        let digits := rest.takeWhile (·.isDigit)
        (some ((Bytes.toNat? digits).getD 0), rest.drop digits.length)
    | rest => (none, rest)
  match rest with
  | kind :: rest =>
      (.field flags ((Bytes.toNat? width).getD 0) precision kind, rest)
  | [] => (.text ('%' :: text), [])

theorem length_field_le (text : Bytes) :
    (field text).2.length ≤ text.length := by
  unfold field
  simp only
  split
  · next kind rest found =>
      have shorter := congrArg List.length found
      revert shorter
      split
      · next inner rest' found' =>
          have shorter' := congrArg List.length found'
          simp only [List.length_cons, List.length_drop] at shorter' ⊢
          intro shorter
          omega
      · simp only [List.length_cons, List.length_drop]
        intro shorter
        omega
  · simp

/-- The parts of a format. -/
def parts : Bytes → List Part
  | [] => []
  | '%' :: '%' :: rest => .text ['%'] :: parts rest
  | '%' :: rest => (field rest).1 :: parts (field rest).2
  | '\\' :: rest =>
      .text (escape false rest).1 :: parts (escape false rest).2
  | byte :: rest => .text [byte] :: parts rest
termination_by text => text.length
decreasing_by
  · simp only [List.length_cons]
    omega
  · have := length_field_le rest
    simp only [List.length_cons]
    omega
  · have := length_escape_le false rest
    simp only [List.length_cons]
    omega
  · simp

/-- A text, filled up with blanks to a width. -/
def pad (flags : Bytes) (width : Nat) (text : Bytes) : Bytes :=
  let missing := width - text.length
  if flags.contains '-' then
    text ++ List.replicate missing ' '
  else
    List.replicate missing ' ' ++ text

/-- The digits of a number in a base, filled up with zeros to a precision. -/
def digitsIn (base : Nat) (precision : Option Nat) (value : Nat) : Bytes :=
  let digits := Nat.toDigits base value
  List.replicate (precision.getD 1 - digits.length) '0' ++ digits

/-- A number, filled up to a width, with zeros if the flags ask for it. -/
def padNumber
    (flags : Bytes)
    (width : Nat)
    (precision : Option Nat)
    (sign digits : Bytes) : Bytes :=
  if flags.contains '0' && !flags.contains '-' && precision.isNone then
    sign ++ List.replicate (width - (sign ++ digits).length) '0' ++ digits
  else
    pad flags width (sign ++ digits)

/-- The sign that is printed before a number. -/
def signOf (flags : Bytes) (value : Int) : Bytes :=
  if value < 0 then ['-']
  else if flags.contains '+' then ['+']
  else if flags.contains ' ' then [' ']
  else []

/-- The value of a digit, letters counting on from ten. -/
def digitValue (byte : Char) : Nat :=
  if byte.isDigit then
    byte.toNat - '0'.toNat
  else
    byte.toLower.toNat - 'a'.toNat + 10

/-- The number that the digits at the start of a text write in a base, and what
follows them. -/
def leadingDigits (base : Nat) (text : Bytes) : Nat × Bytes :=
  let digits := text.takeWhile fun byte =>
    byte.isAlphanum && digitValue byte < base
  (digits.foldl (fun value byte => base * value + digitValue byte) 0,
    text.drop digits.length)

/-- The number at the start of an argument, and whether all of the argument is a
number. A quote tells to take the number of the character behind it. -/
def wholeNumber (argument : Bytes) : Int × Bool :=
  let unsigned := fun text : Bytes =>
    match text with
    | '0' :: 'x' :: digits => leadingDigits 16 digits
    | '0' :: 'X' :: digits => leadingDigits 16 digits
    | '0' :: _ => leadingDigits 8 text
    | text => leadingDigits 10 text
  match argument.dropWhile fun byte => byte == ' ' || byte == '\t' with
  | [] => (0, argument.isEmpty)
  | '"' :: rest => (((rest.head?.map Char.toNat).getD 0 : Nat), rest.length ≤ 1)
  | '\'' :: rest => (((rest.head?.map Char.toNat).getD 0 : Nat), rest.length ≤ 1)
  | '-' :: digits => (-((unsigned digits).1 : Int), (unsigned digits).2.isEmpty)
  | '+' :: digits => ((unsigned digits).1, (unsigned digits).2.isEmpty)
  | digits => ((unsigned digits).1, (unsigned digits).2.isEmpty)

/-- The decimal number at the start of an argument as its sign and the nearest
number with 53 binary digits, and whether all of the argument is a number. -/
def decimalNumber (argument : Bytes) : Bool × Float × Bool :=
  let (isNegative, text) :=
    match argument with
    | '-' :: text => (true, text)
    | '+' :: text => (false, text)
    | text => (false, text)
  let whole := text.takeWhile (·.isDigit)
  let rest := text.drop whole.length
  let (decimals, rest) :=
    match rest with
    | '.' :: rest => (rest.takeWhile Char.isDigit, rest.dropWhile Char.isDigit)
    | rest => ([], rest)
  (isNegative,
    Float.ofScientific (leadingDigits 10 (whole ++ decimals)).1 true decimals.length,
    rest.isEmpty && (!(whole ++ decimals).isEmpty || argument.isEmpty))

/-- A fraction as the nearest whole number; of two nearest the even one. -/
def nearest (numerator denominator : Nat) : Nat :=
  let below := numerator / denominator
  let twice := 2 * (numerator % denominator)
  if twice < denominator || (twice == denominator && below % 2 == 0) then
    below
  else
    below + 1

/-- The digits of a number with some digits behind the point. -/
def fixedDigits (places : Nat) (number : Float) : Bytes :=
  let bits := number.toBits.toNat
  let exponent := bits / Nat.pow 2 52 % Nat.pow 2 11
  let mantissa :=
    bits % Nat.pow 2 52 + (if exponent = 0 then 0 else Nat.pow 2 52)
  let scaled :=
    nearest (mantissa * Nat.pow 10 places * Nat.pow 2 (Nat.max exponent 1))
      (Nat.pow 2 1075)
  let digits := Nat.toDigits 10 scaled
  let digits := List.replicate (places + 1 - digits.length) '0' ++ digits
  digits.take (digits.length - places) ++
    (if places = 0 then [] else '.' :: digits.drop (digits.length - places))

/-- What was printed: the text, the arguments that are left, those that were not
understood, and whether nothing more is to be printed. -/
structure Printing where
  text : Bytes := []
  rest : List Bytes := []
  misread : List Bytes := []
  isDone : Bool := false
  deriving DecidableEq, Repr, Inhabited

/-- A printing with some text before it. -/
def Printing.after (text : Bytes) (misread : List Bytes) (printing : Printing) :
    Printing :=
  { printing with
    text := text ++ printing.text
    misread := misread ++ printing.misread }

/-- What a field prints for an argument, whether the argument was understood, and
whether nothing more is to be printed. -/
def printField
    (flags : Bytes)
    (width : Nat)
    (precision : Option Nat)
    (kind : Char)
    (argument : Bytes) : Bytes × Bool × Bool :=
  let (value, isWhole) := wholeNumber argument
  let unsigned := fun base : Nat =>
    digitsIn base precision (value % (Nat.pow 2 64 : Nat)).toNat
  let number := fun sign digits : Bytes =>
    (padNumber flags width precision sign digits, isWhole, false)
  match kind with
  | 's' =>
      (pad flags width
        (match precision with
        | some count => argument.take count
        | none => argument), true, false)
  | 'b' =>
      let (printed, stopped) := unescape argument
      (pad flags width printed, true, stopped)
  | 'c' => (pad flags width (argument.take 1), true, false)
  | 'x' => number [] (unsigned 16)
  | 'X' => number [] ((unsigned 16).map Char.toUpper)
  | 'o' => number [] (unsigned 8)
  | 'u' => number [] (unsigned 10)
  | 'f' =>
      let (isNegative, value, isDecimal) := decimalNumber argument
      (padNumber flags width none (signOf flags (if isNegative then -1 else 1))
        (fixedDigits (precision.getD 6) value), isDecimal, false)
  | _ => number (signOf flags value) (digitsIn 10 precision value.natAbs)

/-- What parts print once. -/
def printOnce : List Part → List Bytes → Printing
  | [], arguments => { rest := arguments }
  | .text text :: others, arguments =>
      (printOnce others arguments).after text []
  | .field flags width precision kind :: others, arguments =>
      let argument := arguments.head?.getD []
      let (text, isRead, isDone) := printField flags width precision kind argument
      let misread := if isRead then [] else [argument]
      if isDone then
        { text := text, misread := misread, isDone := true }
      else
        (printOnce others arguments.tail).after text misread

/-- Whether a part prints an argument. -/
def Part.isField : Part → Bool
  | .field _ _ _ _ => true
  | .text _ => false

/-- What parts print for arguments, at most some times over. -/
def printAll
    (fuel : Nat)
    (parts : List Part)
    (arguments : List Bytes) : Printing :=
  match fuel with
  | 0 => {}
  | fuel + 1 =>
      let printing := printOnce parts arguments
      if printing.isDone || printing.rest.isEmpty || !parts.any Part.isField then
        printing
      else
        (printAll fuel parts printing.rest).after printing.text printing.misread

/-- What `printf` prints. -/
def printf (format : Bytes) (arguments : List Bytes) : Printing :=
  printAll (arguments.length + 1) (parts format) arguments

end Format
end Shell
end NotePress
