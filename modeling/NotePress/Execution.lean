import NotePress.Disk

/-!
# Running code blocks

A code block is run by a machine, which gives what the program printed or the
reason why there is no output. A program may change the disk. A machine that leaves
the disk alone is an interpreter: it sees how many code blocks ran before, the
command and the code, and nothing else.

Pages are made with any machine. What is proved about them holds for every machine,
or for every one with a property that the statement names. The command line is given
that of `Shell`.
-/

namespace NotePress

/-- One run of a code block. -/
structure CodeCall where
  command : String
  code : String
  deriving DecidableEq, Repr, Inhabited

/-- Why a code block has no output. -/
inductive ExecutionError
  /-- The interpreter could not be started. -/
  | spawn (command cause : String)
  /-- The program did not end in time. -/
  | timeout (command : String) (milliseconds : Nat)
  /-- The program ended with a failure. -/
  | nonZeroExit (command status errorOutput : String)
  /-- The program could not be handed over. -/
  | io (cause : String)
  deriving DecidableEq, Repr, Inhabited

/-- The message about a failed run. A time is told in whole seconds. -/
def ExecutionError.message : ExecutionError → String
  | spawn command cause => "Failed to start `" ++ command ++ "`: " ++ cause
  | timeout command milliseconds =>
      "`" ++ command ++ "` did not finish within " ++
        toString (milliseconds / 1000) ++ "s"
  | nonZeroExit command status errorOutput =>
      "`" ++ command ++ "` exited with " ++ status ++ ": " ++ errorOutput
  | io cause => "IO error: " ++ cause

/-- Runs code blocks on a disk. The number is that of the runs before. -/
abbrev Machine := Disk → Nat → CodeCall → Except ExecutionError String × Disk

/-- Runs code blocks without a disk. The number is that of the runs before. -/
abbrev Interpreter := Nat → CodeCall → Except ExecutionError String

/-- The machine that leaves the disk alone. -/
def Interpreter.machine (interpreter : Interpreter) : Machine :=
  fun disk index call => (interpreter index call, disk)

/-- The captured form of what a program printed: its lines with a line feed
between neighbours. -/
def capturedOutput (raw : String) : String :=
  Text.joinLines (Text.lines raw)

end NotePress
