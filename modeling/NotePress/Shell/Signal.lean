import NotePress.Shell.Bytes

/-!
# Signals

A process may be sent a signal. Most signals end it, some are passed over, and
some stop it for good.
-/

namespace NotePress
namespace Shell

/-- What a signal does to a process. -/
inductive SignalEffect
  | ends
  | passes
  | stops
  deriving DecidableEq, Repr, Inhabited

/-- A signal with its number and its name without `SIG`. The numbers from 32 on
are free for everybody's use; their names tell how far they are from the ends. -/
structure Signal where
  number : Nat
  name : String
  effect : SignalEffect := .ends
  deriving DecidableEq, Repr, Inhabited

namespace Signal

/-- The signals that have a meaning. -/
def standard : List Signal :=
  [⟨1, "HUP", .ends⟩, ⟨2, "INT", .ends⟩, ⟨3, "QUIT", .ends⟩, ⟨4, "ILL", .ends⟩,
    ⟨5, "TRAP", .ends⟩, ⟨6, "ABRT", .ends⟩, ⟨7, "BUS", .ends⟩,
    ⟨8, "FPE", .ends⟩, ⟨9, "KILL", .ends⟩, ⟨10, "USR1", .ends⟩,
    ⟨11, "SEGV", .ends⟩, ⟨12, "USR2", .ends⟩, ⟨13, "PIPE", .ends⟩,
    ⟨14, "ALRM", .ends⟩, ⟨15, "TERM", .ends⟩, ⟨16, "STKFLT", .ends⟩,
    ⟨17, "CHLD", .passes⟩, ⟨18, "CONT", .passes⟩, ⟨19, "STOP", .stops⟩,
    ⟨20, "TSTP", .stops⟩, ⟨21, "TTIN", .stops⟩, ⟨22, "TTOU", .stops⟩,
    ⟨23, "URG", .passes⟩, ⟨24, "XCPU", .ends⟩, ⟨25, "XFSZ", .ends⟩,
    ⟨26, "VTALRM", .ends⟩, ⟨27, "PROF", .ends⟩, ⟨28, "WINCH", .passes⟩,
    ⟨29, "IO", .ends⟩, ⟨30, "PWR", .ends⟩, ⟨31, "SYS", .ends⟩]

/-- The number of the first signal whose meaning is open, and that of the last. -/
def firstOpen : Nat := 34

/-- The number of the last signal. -/
def last : Nat := 64

/-- The name of a signal that has no meaning. -/
def openName (number : Nat) : String :=
  if number < firstOpen then toString number
  else if number = firstOpen then "RTMIN"
  else if number = last then "RTMAX"
  else if number < firstOpen + 16 then "RTMIN+" ++ toString (number - firstOpen)
  else "RTMAX-" ++ toString (last - number)

/-- All signals. -/
def all : List Signal :=
  standard ++ (List.range' 32 33).map fun number => ⟨number, openName number, .ends⟩

/-- Whether a signal has a meaning. -/
def isStandard (signal : Signal) : Bool :=
  signal.number < 32

/-- The signal that ends a process without being asked for another. -/
def terminate : Signal := ⟨15, "TERM", .ends⟩

/-- The signal with a number or a name. -/
def find? (text : String) : Option Signal :=
  all.find? fun signal =>
    toString signal.number == text || signal.name == text ||
      "SIG" ++ signal.name == text

/-- What a shell says about a program that a signal has ended. -/
def description (signal : Signal) : String :=
  match signal.name with
  | "HUP" => "Hangup"
  | "QUIT" => "Quit"
  | "ILL" => "Illegal instruction"
  | "TRAP" => "Trace/breakpoint trap"
  | "ABRT" => "Aborted"
  | "BUS" => "Bus error"
  | "FPE" => "Floating point exception"
  | "KILL" => "Killed"
  | "USR1" => "User defined signal 1"
  | "SEGV" => "Segmentation fault"
  | "USR2" => "User defined signal 2"
  | "ALRM" => "Alarm clock"
  | "TERM" => "Terminated"
  | "STKFLT" => "Stack fault"
  | "XCPU" => "CPU time limit exceeded"
  | "XFSZ" => "File size limit exceeded"
  | "VTALRM" => "Virtual timer expired"
  | "PROF" => "Profiling timer expired"
  | "IO" => "I/O possible"
  | "PWR" => "Power failure"
  | "SYS" => "Bad system call"
  | name =>
      if signal.isStandard then name
      else if signal.number < firstOpen then
        "Unknown signal " ++ toString signal.number
      else
        "Real-time signal " ++ toString (signal.number - firstOpen)

/-- Whether a shell says nothing about a program that a signal has ended. -/
def isQuiet (signal : Signal) : Bool :=
  signal.name == "INT" || signal.name == "PIPE"

/-- Whether a process may decide itself what a signal does. -/
def isCatchable (signal : Signal) : Bool :=
  signal.name != "KILL" && signal.name != "STOP"

end Signal

/-- How a process ended. -/
inductive Ending
  | exited (status : Nat)
  | killed (cause : Signal)
  deriving DecidableEq, Repr, Inhabited

/-- How an ending is told. -/
def Ending.text : Ending → String
  | exited status => "exit status: " ++ toString status
  | killed cause =>
      "signal: " ++ toString cause.number ++
        (if cause.isStandard then " (SIG" ++ cause.name ++ ")" else "")

end Shell
end NotePress
