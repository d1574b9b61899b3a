import NotePress.Execution
import NotePress.Expansion
import NotePress.Shell.Run

/-!
# Running code with programs

A code block is run by the program that its command stands for. The program is
given a file with the code as its argument, and the lines of the code to read. Its
output is captured once it has ended and nobody holds its output any more; if that
takes too long, there is none. What it did to the disk stays done.

This is one machine among others, the one that the command line is given. Nothing that
is proved about pages looks into it.
-/

namespace NotePress
namespace Shell

/-- What came of a program: how it ended, when nobody holds its output any more,
what it printed and complained, and the disk that it left. -/
structure Report where
  ending : Ending
  finish : Nat
  output : Bytes
  errors : Bytes
  disk : Disk
  deriving Inhabited

/-- The file that the code is put into. -/
def codeFile : Location := ["tmp", "scrip-000000.code"]

/-- The path of the file that the code is put into. -/
def codePath : Bytes :=
  Bytes.ofText (Location.path codeFile).text

/-- The number of the first process. -/
def firstProcess : Nat := 4242

/-- How deep the commands of a script may stand in one another. -/
def maximalDepth : Nat := 16000

/-- How many commands a script may run. -/
def patience : Nat := 400000

/-- The first process of a world, with some variables. -/
def Process.first (bindings : Variables) (directory : Location) : Process :=
  let bindings := bindings.map fun (name, value) =>
    (Bytes.ofText name, Bytes.ofText value)
  { number := firstProcess
    script := []
    bindings := bindings
    exported := bindings.map Prod.fst
    streams := [(0, .channel World.input), (1, .channel World.output),
      (2, .channel World.errors)]
    directory := Location.path directory }

/-- Let what was started run for some time, given what it may read. -/
def Program.Launch.report
    (launched : Program.Launch)
    (disk : Disk)
    (bindings : Variables)
    (limit : Nat)
    (name input : Bytes) : Report :=
  let world : World :=
    { disk := disk
      channels := #[[(0, input)], [], []]
      limit := limit
      patience := patience
      firstProcess := firstProcess
      nextProcess := firstProcess + 1 }
  let process := Process.first bindings disk.workingDirectory
  let (_, state) :=
    (Run.runLaunch maximalDepth true name launched).run ⟨world, process⟩
  let world := state.world
  { ending :=
      match world.killed with
      | some signal => .killed signal
      | none => .exited state.process.status
    finish :=
      max world.clock
        (max (world.openUntil World.output) (world.openUntil World.errors))
    output := world.content World.output
    errors := world.content World.errors
    disk := world.disk }

/-- The program that a command starts with arguments, or why there is none. -/
def startOf
    (disk : Disk)
    (bindings : Variables)
    (command : String)
    (arguments : List Bytes) : Except String Program.Launch :=
  if command.toList.contains '\x00' then
    .error "nul byte found in provided data"
  else
    let places := Bytes.ofText ((bindings.lookup "PATH").getD Program.usualPlaces)
    match Program.search disk (Location.path disk.workingDirectory) places
        (Bytes.ofText command) arguments with
    | .ok (_, launched) => .ok launched
    | .error (_, failure) => .error failure.message

/-- Run a code block for less than some milliseconds. The answer comes with the
disk after the run. -/
def execute
    (disk : Disk)
    (bindings : Variables)
    (milliseconds : Nat)
    (call : CodeCall) : Except ExecutionError String × Disk :=
  let prepared :=
    (disk.makeDirectories codeFile.dropLast).addFile codeFile
      { content := .ofText call.code, mode := 0o600 }
  match startOf prepared bindings call.command [codePath] with
  | .error cause => (.error (.spawn call.command cause), disk)
  | .ok launched =>
      let report := launched.report prepared bindings milliseconds
        (Bytes.ofText call.command)
        (Bytes.unlines ((Text.lines call.code).map Bytes.ofText))
      let answer :=
        if milliseconds ≤ report.finish then
          .error (.timeout call.command milliseconds)
        else if report.ending = .exited 0 then
          .ok (capturedOutput report.output.toText)
        else
          .error (.nonZeroExit call.command report.ending.text
            (Text.trim report.errors.toText))
      (answer, report.disk.erase codeFile)

/-- The machine that runs code blocks with the programs on the disk. -/
def machine
    (bindings : Variables)
    (milliseconds : Nat) : Machine :=
  fun disk _ call => execute disk bindings milliseconds call

end Shell
end NotePress
