import NotePress.Shell.Options

/-!
# What programs print

A filter is a program that turns files and what it is given to read into what it
prints, and sees nothing else of the world. Here is what filters share: the contents
they work on, and their complaints.
-/

namespace NotePress
namespace Shell

/-- What a program that ended has printed to which stream, and the status it ended
with. -/
structure Printed where
  texts : List (Nat × Bytes) := []
  status : Nat := 0
  deriving DecidableEq, Repr, Inhabited

namespace Printed

/-- Complaints and an output, which a program keeps back until its end. -/
def keeping (output : Bytes) (errors : Bytes) (status : Nat) : Printed :=
  ⟨[(2, errors), (1, output)], status⟩

/-- An output and nothing else. -/
def only (output : Bytes) : Printed :=
  ⟨[(1, output)], 0⟩

/-- What is printed to a stream. -/
def textOf (printed : Printed) (descriptor : Nat) : Bytes :=
  (printed.texts.filter (·.1 == descriptor)).flatMap Prod.snd

/-- A complaint of a program that can do nothing. -/
def failing (program : String) (message : Bytes) (status : Nat) : Printed :=
  ⟨[(2, program.toList ++ ':' :: ' ' :: message ++ ['\n'])], status⟩

/-- A complaint about how a program was called. -/
def usage (program : String) (message : Bytes) (status : Nat) : Printed :=
  failing program
    (message ++ "\nTry '".toList ++ program.toList ++
      " --help' for more information.".toList) status

end Printed

/-- The content of a file, or why there is none. -/
abbrev Files := Bytes → Except String Bytes

/-- What a filter can read. -/
structure Supply where
  /-- What it is given to read, or why that cannot be read. -/
  input : Except String Bytes := .ok []
  /-- Whether the input is a file. -/
  isFile : Bool := false
  file : Files
  /-- The files below a directory; `none` if there is no directory. -/
  below? : Bytes → Option (List Bytes) := fun _ => none

/-- Whether an operand stands for the input. -/
def isInput (operand : Bytes) : Bool :=
  operand == ['-'] || operand == "/dev/stdin".toList

/-- Whether a program with operands reads its input. -/
def readsOperands (operands : List Bytes) : Bool :=
  operands.isEmpty || operands.any isInput

/-- The content that an operand names. -/
def Supply.content (supply : Supply) (operand : Bytes) : Except String Bytes :=
  if isInput operand then supply.input else supply.file operand

/-- A program that prints what it makes of files and of its input. -/
structure Filter where
  /-- Arguments spelled as options of the form. -/
  spell : List Bytes → List Bytes := id
  form : OptionForm := {}
  /-- The status after arguments that are not understood. -/
  failing : Nat := 1
  reads : Options → Bool := fun options => readsOperands options.operands
  /-- The file that the output goes to, if it is named. -/
  target? : Options → Option Bytes := fun _ => none
  print : Supply → Options → Printed
  deriving Inhabited

namespace Filter

/-- What a program says before and behind the name of a file that it cannot
open. -/
def openingWords (program : String) : String × String :=
  match program with
  | "head" | "tail" => ("cannot open '", "' for reading")
  | "tac" => ("failed to open '", "' for reading")
  | "sort" => ("cannot read: ", "")
  | "sed" => ("can't read ", "")
  | "rev" => ("cannot open ", "")
  | _ => ("", "")

/-- What a program says before and behind the name of a directory. -/
def directoryWords (program : String) : String × String :=
  match program with
  | "head" | "tail" | "uniq" => ("error reading '", "'")
  | "tac" => ("", ": read error")
  | "sort" => ("read failed: ", "")
  | "sed" => ("couldn't edit ", ": not a regular file")
  | _ => ("", "")

/-- What a program calls its input when it cannot be read. -/
def inputName (program : String) : String :=
  match program with
  | "head" | "tail" => "standard input"
  | "wc" | "od" => "'standard input'"
  | "grep" => "(standard input)"
  | _ => "-"

/-- The message that a program prints about a file. -/
def complaint (program : String) (file : Bytes) (cause : String) : Bytes :=
  let name := if isInput file then (inputName program).toList else file
  let (before, behind) :=
    if cause == "Is a directory" || isInput file then directoryWords program
    else openingWords program
  let message :=
    if program == "base64" && (cause == "Is a directory" || isInput file) then
      "read error".toList
    else
      before.toList ++ name ++ behind.toList
  program.toList ++ ':' :: ' ' :: message ++ ':' :: ' ' :: cause.toList ++ ['\n']

/-- The operands of a filter, which reads its input if there are none. -/
def inputs (options : Options) : List Bytes :=
  if options.operands.isEmpty then [['-']] else options.operands

/-- The contents that operands name, with their names, and the complaints about
the others. -/
def contents
    (program : String)
    (supply : Supply)
    (operands : List Bytes) : List (Bytes × Bytes) × Bytes :=
  operands.foldl
    (fun (found, complaints) operand =>
      match supply.content operand with
      | .ok content => (found ++ [(operand, content)], complaints)
      | .error cause => (found, complaints ++ complaint program operand cause))
    ([], [])

/-- What a program prints for all contents, given one after the other. -/
def overEach
    (program : String)
    (supply : Supply)
    (options : Options)
    (print : List Bytes → Bytes) : Printed :=
  let (found, complaints) := contents program supply (inputs options)
  .keeping (print (found.map Prod.snd)) complaints
    (if complaints.isEmpty then 0 else 1)

/-- What a program prints for all contents put together. -/
def overAll
    (program : String)
    (supply : Supply)
    (options : Options)
    (print : Bytes → Bytes) : Printed :=
  overEach program supply options fun contents => print contents.flatten

/-- What a program prints that works on one content. -/
def overOne
    (program : String)
    (supply : Supply)
    (operand : Bytes)
    (print : Bytes → Bytes) : Printed :=
  match supply.content operand with
  | .ok content => .only (print content)
  | .error cause => ⟨[(2, complaint program operand cause)], 1⟩

/-- The number of bytes or lines that a count with a unit tells. -/
def amount? (text : Bytes) : Option Nat :=
  let digits := text.takeWhile (·.isDigit)
  let unit? :=
    match String.ofList (text.drop digits.length) with
    | "" => some 1
    | "b" => some 512
    | "k" | "K" | "KiB" => some 1024
    | "kB" | "KB" => some 1000
    | "M" | "MiB" => some 1048576
    | "MB" => some 1000000
    | _ => none
  match Bytes.toNat? digits, unit? with
  | some count, some unit => some (count * unit)
  | _, _ => none

/-- A text between quotes. -/
def inQuotes (text : Bytes) : Bytes :=
  '\'' :: text ++ ['\'']

end Filter
end Shell
end NotePress
